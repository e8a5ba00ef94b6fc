import Chip8.Description
import Chip8.Machine.Command
import Chip8.Main
import Chip8.Proofs.Span
import Chip8.Proofs.Effect
import Chip8.Proofs.Cycle
import Chip8.Proofs.History
import Chip8.Proofs.Decoding
import Chip8.Proofs.KeyWait
import Chip8.Proofs.Refusal
import Chip8.Proofs.Relaxation
import Chip8.Proofs.CallReturn
import Chip8.Proofs.Checked
import Chip8.Proofs.Totality
import Chip8.Proofs.Ledger
import Chip8.Proofs.FrameRun
import Chip8.Proofs.KeyBlock
import Chip8.Proofs.Presentation
import Chip8.Proofs.Lockstep
import Chip8.Proofs.Aliasing
import Chip8.Proofs.Halt
import Chip8.Proofs.Bounds
import Chip8.Proofs.Reload
import Chip8.Proofs.Dialect
import Chip8.Proofs.Noninterference
import Chip8.Proofs.LifeCycle
import Chip8.Proofs.RandomDraws
import Chip8.Proofs.Countdown
import Chip8.Proofs.SpritePixels
import Chip8.Proofs.StrictFaults
import Chip8.Proofs.Journaling
import Chip8.Proofs.Rendering
import Chip8.Proofs.RunReport
import Chip8.Proofs.ToneChanges
import Chip8.Proofs.SpriteDraw
import Chip8.Proofs.FlagAliasing
import Chip8.Proofs.BulkTransfer
import Chip8.Proofs.Footprint
import Chip8.Proofs.ReadFootprint
import Chip8.Proofs.SpriteOrder
import Chip8.Proofs.DecimalStore
import Chip8.Proofs.StackDiscipline
import Chip8.Proofs.DisplayViews
import Chip8.Proofs.Numerals
import Chip8.Proofs.KeySpelling
import Chip8.Proofs.SpanCheck
import Chip8.Proofs.CommandLineParts
import Chip8.Proofs.CommandLineOptions
import Chip8.Proofs.CommandLineReading
