namespace Chip8.CommandLine

def versionText : String := "chip8vm 0.0.1\n"

def helpText : String :=
  "\n".intercalate [
    "Run a CHIP-8 program image headlessly",
    "",
    "Usage: chip8vm [OPTIONS] <ROM>",
    "",
    "Arguments:",
    "  <ROM>  Program image to load at 0x200",
    "",
    "Options:",
    "      --ips <IPS>                  Instructions executed per second of emulated time " ++
      "[default: 700]",
    "      --frames <FRAMES>            Number of 60 Hz frames to run before exiting " ++
      "[default: 600]",
    "      --seed <SEED>                Seed for the random number instruction",
    "      --strict                     Fail on stack exhaustion, out-of-range accesses and " ++
      "unknown instructions",
    "      --shift-quirk <SHIFT_QUIRK>  Register read by the shift instructions: reference, " ++
      "vx-only or vy-only [default: reference]",
    "      --sprite-mode <SPRITE_MODE>  Sprite pixel placement: linear or wrap " ++
      "[default: linear]",
    "      --key <KEYS>                 Hex key (0-f) held for the whole run; may be repeated",
    "      --realtime                   Pace frames to wall-clock time",
    "  -h, --help                       Print help",
    "  -V, --version                    Print version",
    ""]

end Chip8.CommandLine
