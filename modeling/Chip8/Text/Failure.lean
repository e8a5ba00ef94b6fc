namespace Chip8.Text

/-- A text whose lines after the first stand behind a margin. -/
def indented (margin : Nat) (text : String) : String :=
  ("\n" ++ String.ofList (List.replicate margin ' ')).intercalate (text.splitOn "\n")

/-- A failure and what has caused it in turn. Several causes are numbered. -/
def failure (what : String) (causes : List String) : String :=
  let explanation := match causes with
    | [] => ""
    | [cause] => "\n\nCaused by:\n    " ++ indented 4 cause
    | causes =>
        "\n\nCaused by:" ++
          String.join (causes.mapIdx fun i cause => s!"\n    {i}: {indented 7 cause}")
  "Error: " ++ what ++ explanation ++ "\n"

end Chip8.Text
