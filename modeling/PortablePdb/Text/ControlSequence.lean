/-!
Control sequences: text that directs a terminal instead of being shown on it. `shown`
keeps what a reader gets to see. `shownFrom_of_forall` says that text without controls is
kept as it is.

A layout character inside a sequence is shown at once, and with it the run of text that
follows, up to the next control. Behind the run the sequence goes on, unless a character
outside ASCII in the run has ended it.
-/

namespace PortablePdb.Text.ControlSequence

/-- What the next character of a text belongs to, unless a run of shown text goes on. -/
inductive State
  | plain
  /-- A sequence of which there is nothing but the escape character. -/
  | escape
  /-- A sequence of marks, which a letter or digit ends. -/
  | marks
  /-- A sequence of parameters, which a letter ends. -/
  | parameters
  /-- A command to the system of the terminal, which a bell ends. -/
  | command
  /-- A string for a device, before its parameters. -/
  | device
  /-- A string for a device, in its parameters. -/
  | deviceParameters
  /-- A string for a device, in the marks behind its parameters. -/
  | deviceMarks
  /-- The contents of a string for a device or a program, which a terminator ends. -/
  | message
  deriving DecidableEq

/-- Tab, line feed, form feed and carriage return, which are shown as the space that they
leave. -/
def isLayout (c : Char) : Bool :=
  c = '\t' || c = '\n' || c = '\x0c' || c = '\r'

def isPlain (c : Char) : Bool :=
  isLayout c || (' ' ≤ c && c ≠ '\x7f')

def isIn (first last c : Char) : Bool := first ≤ c && c ≤ last

/-- The terminator of strings is a byte, which the stored form of some characters
holds. -/
def hasTerminator (c : Char) : Bool :=
  (String.utf8EncodeChar c).contains 0x9c

namespace State

/-- The state behind the character that follows an escape character. -/
def ofIntroducer (c : Char) : State :=
  if c = '[' then parameters
  else if c = ']' then command
  else if c = 'P' then device
  else if c = 'X' || c = '^' || c = '_' then message
  else if isIn ' ' '/' c then marks
  else if isIn '0' '~' c then plain
  else escape

/-- The state behind a character that is not shown. An escape character starts a sequence
everywhere, and a cancel or substitute character ends any. -/
def next (s : State) (c : Char) : State :=
  if c = '\x1b' then escape
  else if c = '\x18' || c = '\x1a' then plain
  else
    match s with
    | plain => plain
    | escape => ofIntroducer c
    | marks => if isIn '0' '~' c then plain else marks
    | parameters => if isIn '@' '~' c then plain else parameters
    | command => if c = '\x07' then plain else command
    | device =>
      if isIn '@' '~' c then message
      else if isIn '0' '?' c then deviceParameters
      else if isIn ' ' '/' c then deviceMarks
      else device
    | deviceParameters =>
      if isIn '<' '~' c then message
      else if isIn ' ' '/' c then deviceMarks
      else deviceParameters
    | deviceMarks => if isIn '0' '~' c then message else deviceMarks
    | message => if hasTerminator c then plain else message

def shows (s : State) (c : Char) : Bool :=
  match s with
  | plain => isPlain c
  | escape | marks | parameters => isLayout c
  | command | device | deviceParameters | deviceMarks | message => false

def behindShown (s : State) (c : Char) : State :=
  if c ≤ '\x7f' then s else plain

end State

/-- What is shown of a text that starts in a state, `running` if a run of shown text goes
on. -/
def shownFrom (running : Bool) (s : State) : List Char → List Char
  | [] => []
  | c :: cs =>
    if s.shows c || (running && isPlain c) then c :: shownFrom true (s.behindShown c) cs
    else shownFrom false (s.next c) cs

def shown (text : String) : String :=
  String.ofList (shownFrom false .plain text.toList)

@[simp] theorem behindShown_plain (c : Char) : State.plain.behindShown c = .plain := by
  simp [State.behindShown]

theorem shownFrom_of_forall {cs : List Char} (running : Bool) (h : ∀ c ∈ cs, isPlain c) :
    shownFrom running .plain cs = cs := by
  induction cs generalizing running with
  | nil => rfl
  | cons c cs ih =>
    have hc : State.plain.shows c := h c (by simp)
    rw [shownFrom, hc, Bool.true_or, if_pos rfl, behindShown_plain,
      ih _ fun d hd => h d (by simp [hd])]

end PortablePdb.Text.ControlSequence
