namespace Chip8.Hex

/-- Lower-case hexadecimal digits of `n`, with leading zeros up to `width` digits. -/
def digits (width n : Nat) : String :=
  let shortest := Nat.toDigits 16 n
  String.ofList (List.replicate (width - shortest.length) '0' ++ shortest)

def literal (width n : Nat) : String :=
  "0x" ++ digits width n

end Chip8.Hex
