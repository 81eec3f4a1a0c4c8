/-! Text without what only terminals understand: control characters other than white space, and the
sequences of characters that an escape character begins. -/

namespace TigerLang.Text.TerminalSequence

/-- How far a sequence has been read. A short one is an escape character with a few characters after
it; a control sequence goes up to its first letter; a device sequence has a head and then a body,
which goes up to a terminator, as do private texts; a system command goes up to a bell. -/
inductive Reading
  | plain
  | escape
  | short
  | control
  | deviceHead
  | deviceParams
  | deviceMiddle
  | body
  | command
  deriving DecidableEq, Repr

def isAsciiBlank (c : Char) : Bool :=
  c == ' ' || c == '\t' || c == '\n' || c == '\x0c' || c == '\r'

def isControl (c : Char) : Bool := c.toNat < 0x20

/-- The terminator is a byte, and ends a body wherever it occurs. -/
def holdsTerminator (c : Char) : Bool := (String.utf8EncodeChar c).contains 0x9c

def afterEscape (c : Char) : Reading :=
  if c = '[' then .control
  else if c = ']' then .command
  else if c = 'P' then .deviceHead
  else if c = 'X' ∨ c = '^' ∨ c = '_' then .body
  else if ' ' ≤ c ∧ c ≤ '/' then .short
  else if '0' ≤ c ∧ c ≤ '~' then .plain
  else .escape

def next (c : Char) : Reading → Reading
  | .plain => .plain
  | .escape => afterEscape c
  | .short => if '0' ≤ c ∧ c ≤ '~' then .plain else .short
  | .control => if '@' ≤ c ∧ c ≤ '~' then .plain else .control
  | .deviceHead =>
    if ' ' ≤ c ∧ c ≤ '/' then .deviceMiddle
    else if '0' ≤ c ∧ c ≤ '?' then .deviceParams
    else if '@' ≤ c ∧ c ≤ '~' then .body
    else .deviceHead
  | .deviceParams =>
    if ' ' ≤ c ∧ c ≤ '/' then .deviceMiddle
    else if '<' ≤ c ∧ c ≤ '~' then .body
    else .deviceParams
  | .deviceMiddle => if '0' ≤ c ∧ c ≤ '~' then .body else .deviceMiddle
  | .body => if holdsTerminator c then .plain else .body
  | .command => .command

/-- Whether a control that stands inside a sequence still counts. -/
def obeysControls : Reading → Bool
  | .plain | .escape | .short | .control => true
  | _ => false

/-- A reader of text. White space that counts inside a sequence is kept and suspends the sequence:
the text after it is shown, up to the next character that is not. -/
structure Reader where
  reading : Reading
  suspended : Bool
  deriving DecidableEq, Repr

namespace Reader

def initial : Reader := ⟨.plain, false⟩

def resume (r : Reader) : Reader := { r with suspended := false }

def readControl (r : Reader) (c : Char) : Reader × Bool :=
  if isAsciiBlank c ∧ obeysControls r.reading then ({ r with suspended := true }, true)
  else if r.reading = .command ∧ c = '\x07' then (initial, false)
  else (r.resume, false)

/-- The reader after a character, and whether the character is kept. The cancel and substitute
characters break off any sequence. A suspended one lasts through ASCII text and is forgotten at any
other character. -/
def read (r : Reader) (c : Char) : Reader × Bool :=
  if c = '\x1b' then (⟨.escape, false⟩, false)
  else if c = '\x18' ∨ c = '\x1a' then (initial, false)
  else if isControl c then r.readControl c
  else if c = '\x7f' then (r.resume, false)
  else if r.suspended then (if c.toNat < 0x80 then r else initial, true)
  else (⟨next c r.reading, false⟩, r.reading = .plain)

end Reader

def removeFrom (r : Reader) : List Char → List Char
  | [] => []
  | c :: cs =>
    let (r, keep) := r.read c
    if keep then c :: removeFrom r cs else removeFrom r cs

def remove (text : List Char) : List Char := removeFrom .initial text

end TigerLang.Text.TerminalSequence
