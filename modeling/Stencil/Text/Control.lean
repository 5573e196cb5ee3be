import Stencil.Text.Utf8

/-!
# Control sequences

A terminal takes some characters for orders: control characters, and sequences that start with the
escape character. For a reader that is no terminal they are left out.

* `withoutControls_eq_self`: a text without control characters stays as it is.
-/

namespace Stencil

/-- How far a terminal has read a control sequence. -/
inductive ControlPhase where
  /-- No sequence is read. -/
  | outside
  /-- The escape character was read. -/
  | escaped
  /-- A sequence of two or more characters, which ends with the next one that is no mark. -/
  | marked
  /-- A sequence with parameters, which ends with a letter. -/
  | parameters
  /-- An order to the system, which ends with the bell or an escape character. -/
  | order
  /-- A device string is announced. -/
  | device
  /-- The parameters of a device string. -/
  | deviceParameters
  /-- The marks before a device string. -/
  | deviceMarks
  /-- A string that is not for the eye, up to its end. -/
  | hidden
  deriving DecidableEq, Repr

namespace ControlPhase

/-- Whether the number of the character is between the two, which are included. -/
def between (first last : Nat) (c : Char) : Bool := first ≤ c.toNat && c.toNat ≤ last

/-- Whether the character is written with several bytes. -/
def isWide (c : Char) : Bool := 0x80 ≤ c.toNat

/-- The byte that ends a hidden string, wherever it stands in a character. -/
def stringEnd : UInt8 := 0x9C

/-- The phase after one more character. -/
def next (phase : ControlPhase) (c : Char) : ControlPhase :=
  if c = '\x18' ∨ c = '\x1a' then outside
  else if c = '\x1b' then escaped
  else
    match phase with
    | outside => outside
    | escaped =>
      if between 0x20 0x2F c then marked
      else if c = '[' then parameters
      else if c = ']' then order
      else if c = 'P' then device
      else if c = 'X' ∨ c = '^' ∨ c = '_' then hidden
      else if between 0x30 0x7E c then outside
      else escaped
    | marked => if between 0x30 0x7E c then outside else marked
    | parameters => if between 0x40 0x7E c then outside else parameters
    | order => if c = '\x07' then outside else order
    | device =>
      if between 0x20 0x2F c then deviceMarks
      else if between 0x30 0x3F c then deviceParameters
      else if between 0x40 0x7E c then hidden
      else device
    | deviceParameters =>
      if between 0x20 0x2F c then deviceMarks
      else if between 0x3C 0x7E c then hidden
      else deviceParameters
    | deviceMarks => if between 0x30 0x7E c then hidden else deviceMarks
    | hidden => if isWide c && (Utf8.encode [c]).contains stringEnd then outside else hidden

/-- Whether the character is one that moves on in the text: a tabulator or the end of a line or
page. -/
def isMove (c : Char) : Bool := c == '\t' || c == '\n' || c == '\x0c' || c == '\r'

/-- Whether the character is shown in the phase. Sequences do not swallow moves, but strings do. -/
def shows (phase : ControlPhase) (c : Char) : Bool :=
  match phase with
  | outside => isMove c || between 0x20 0x7E c || isWide c
  | escaped | marked | parameters => isMove c
  | order | device | deviceParameters | deviceMarks | hidden => false

/-- What is shown of the text, from a phase on. What follows a shown character is shown too, up to
the next control character; only then a sequence goes on in which a move was shown. -/
def shownFrom (phase : ControlPhase) (showing : Bool) : Text → Text
  | [] => []
  | c :: rest =>
    if (if showing then outside else phase).shows c then
      c :: shownFrom (if isWide c then outside else phase) true rest
    else shownFrom (phase.next c) false rest

end ControlPhase

/-- The text without control characters and sequences. -/
def Text.withoutControls (text : Text) : Text := ControlPhase.shownFrom .outside false text

theorem Text.withoutControls_eq_self {text : Text}
    (h : ∀ c ∈ text, ControlPhase.outside.shows c = true) : text.withoutControls = text := by
  suffices ∀ showing, ControlPhase.shownFrom .outside showing text = text from this false
  induction text with
  | nil => simp [ControlPhase.shownFrom]
  | cons c rest ih =>
    intro showing
    have hc := h c (by simp)
    simp only [ControlPhase.shownFrom, ite_self, hc, if_true]
    rw [ih fun x hx => h x (by simp [hx])]

end Stencil
