import Chip8.Word

namespace Chip8

abbrev Image := Array UInt8

/-- The number of bytes between the reset address and the end of memory. -/
def Image.capacity : Nat := 4096 - Address.reset.val

inductive FileError where
  | notFound
  | notDirectory
  | isDirectory
  | nameTooLong
  /-- The path holds a character that ends it for the system. -/
  | nulByte
  /-- Any other cause, with the text and the number that the system gives it. -/
  | other (text : String) (code : Nat)
  deriving DecidableEq

def FileError.message : FileError → String
  | notFound => "No such file or directory (os error 2)"
  | notDirectory => "Not a directory (os error 20)"
  | isDirectory => "Is a directory (os error 21)"
  | nameTooLong => "File name too long (os error 36)"
  | nulByte => "file name contained an unexpected NUL byte"
  | other text code => s!"{text} (os error {code})"

def FileError.ofCode (code : Nat) (text : String) : FileError :=
  match code with
  | 2 => notFound
  | 20 => notDirectory
  | 21 => isDirectory
  | 36 => nameTooLong
  | _ => other text code

inductive LoadError where
  | imageTooLarge (length : Nat)
  | unreadable (path : String) (cause : FileError)
  deriving DecidableEq

def LoadError.message : LoadError → String
  | imageTooLarge length =>
      s!"program image of {length} bytes exceeds the {Image.capacity} bytes available"
  | unreadable path cause => s!"cannot read program image {path}: {cause.message}"

/-- A load error and what has caused it in turn. -/
def LoadError.chain (e : LoadError) : List String :=
  match e with
  | imageTooLarge _ => [e.message]
  | unreadable _ cause => [e.message, cause.message]

/-- A working directory that holds some files and no directories. -/
structure Directory where
  files : List (String × Image) := []

namespace Directory

def maxName : Nat := 255

def maxPath : Nat := 4095

inductive Place where
  | here
  /-- Any directory above it, in which no name is known. -/
  | above
  | file (image : Image)

/-- One step of a path. An empty name and a dot stay in a directory. -/
def enter (d : Directory) (name : String) : Place → Except FileError Place
  | .file _ => .error .notDirectory
  | .here =>
      if name = "" ∨ name = "." then .ok .here
      else if name = ".." then .ok .above
      else if maxName < name.utf8ByteSize then .error .nameTooLong
      else match d.files.lookup name with
        | some image => .ok (.file image)
        | none => .error .notFound
  | .above =>
      if name = "" ∨ name = "." ∨ name = ".." then .ok .above
      else if maxName < name.utf8ByteSize then .error .nameTooLong
      else .error .notFound

def read (d : Directory) (path : String) : Except FileError Image :=
  if path.toList.contains '\x00' then .error .nulByte
  else if path = "" then .error .notFound
  else if maxPath < path.utf8ByteSize then .error .nameTooLong
  else
    let start : Place := if path.startsWith "/" then .above else .here
    match (path.splitOn "/").foldlM (fun place name => d.enter name place) start with
    | .error cause => .error cause
    | .ok (.file image) => .ok image
    | .ok _ => .error .isDirectory

end Directory

end Chip8
