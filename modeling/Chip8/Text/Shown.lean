namespace Chip8.Text

/-- Where a text stands among the control sequences of a terminal. -/
inductive ControlState where
  | plain
  | escape
  /-- In an escape sequence with characters in between. -/
  | intermediate
  /-- In a sequence of parameters and a final letter. -/
  | parameters
  /-- In the head of a control string for a device. -/
  | deviceHead
  /-- In the head of a control string, behind a parameter. -/
  | deviceParameters
  /-- In the head of a control string, behind a character in between. -/
  | deviceIntermediate
  /-- In a control string that a terminator ends. -/
  | payload
  /-- In a command for the system, which a bell ends. -/
  | command
  deriving DecidableEq

namespace ControlState

/-- The blanks among the control characters. -/
def isBlank (c : Char) : Bool := c = '\t' || c = '\n' || c = '\x0c' || c = '\r'

/-- A character that plain text may show. -/
def isGraphic (c : Char) : Bool := isBlank c || (' ' ≤ c && c ≠ '\x7f')

/-- A character with the byte in its encoding that terminates a control string. -/
def isTerminator (c : Char) : Bool := (String.utf8EncodeChar c).contains 0x9C

/-- Whether a graphic character is shown that follows characters that are not.
Blanks are shown in the middle of a sequence, but not of a control string. -/
def reveals (state : ControlState) (c : Char) : Bool :=
  match state with
  | plain => true
  | escape | intermediate | parameters => isBlank c
  | deviceHead | deviceParameters | deviceIntermediate | payload | command => false

/-- The state behind a character that is not shown. An escape starts a new
sequence anywhere, and two control characters give up any sequence. -/
def next (state : ControlState) (c : Char) : ControlState :=
  if c = '\x1b' then escape
  else if c = '\x18' || c = '\x1a' then plain
  else match state with
    | plain => plain
    | escape =>
      if c = '[' then parameters
      else if c = ']' then command
      else if c = 'P' then deviceHead
      else if c = 'X' || c = '^' || c = '_' then payload
      else if ' ' ≤ c && c ≤ '/' then intermediate
      else if '0' ≤ c && c ≤ '~' then plain
      else escape
    | intermediate => if '0' ≤ c && c ≤ '~' then plain else intermediate
    | parameters => if '@' ≤ c && c ≤ '~' then plain else parameters
    | deviceHead =>
      if ' ' ≤ c && c ≤ '/' then deviceIntermediate
      else if '0' ≤ c && c ≤ '?' then deviceParameters
      else if '@' ≤ c && c ≤ '~' then payload
      else deviceHead
    | deviceParameters =>
      if ' ' ≤ c && c ≤ '/' then deviceIntermediate
      else if '<' ≤ c && c ≤ '~' then payload
      else deviceParameters
    | deviceIntermediate => if '0' ≤ c && c ≤ '~' then payload else deviceIntermediate
    | payload => if isTerminator c then plain else payload
    | command => if c = '\x07' then plain else command

end ControlState

/-- The characters that a terminal shows, from a state on. Once a character has
been shown, graphic characters are shown up to the next that is not graphic. A
sequence that they interrupt goes on behind them, unless one of them lies
outside ASCII. -/
def shownFrom (state : ControlState) (showing : Bool) : List Char → List Char
  | [] => []
  | c :: rest =>
    if ControlState.isGraphic c && (showing || state.reveals c) then
      c :: shownFrom (if c ≤ '\x7f' then state else .plain) true rest
    else shownFrom (state.next c) false rest

def shown (s : String) : String :=
  String.ofList (shownFrom .plain false s.toList)

end Chip8.Text
