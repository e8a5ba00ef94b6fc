namespace Chip8.Text

/-- A record on one line: its name and its items between braces. -/
def record (name : String) (items : List String) : String :=
  name ++ " \x7b " ++ ", ".intercalate items ++ " \x7d"

def item (name value : String) : String := name ++ ": " ++ value

def list (values : List String) : String :=
  "[" ++ ", ".intercalate values ++ "]"

end Chip8.Text
