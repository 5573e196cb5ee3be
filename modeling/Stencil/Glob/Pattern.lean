import Stencil.Text.Basic

/-!
# Patterns for file names

A pattern is a sequence of pieces: characters, wildcards and classes. It is read from a text, in
which `?` is any character, `*` any run, `**` as a whole path component any folders, and `[...]` a
class of characters, negated by a `!` at its start.

* `Pattern.parse_plain`: a text without special characters is the pattern of itself.
-/

namespace Stencil.Glob

/-- A member of a class of characters: one character, or all from the first to the last. -/
inductive Range where
  | one (c : Char)
  | between (first last : Char)
  deriving DecidableEq, Repr

/-- A piece of a pattern. -/
inductive Piece where
  | char (c : Char)
  | anyChar
  | anyRun
  | anyFolders
  | oneOf (ranges : List Range)
  | noneOf (ranges : List Range)
  deriving DecidableEq, Repr

/-- A pattern: its pieces, one after the other. -/
structure Pattern where
  pieces : List Piece
  deriving DecidableEq, Repr

/-- What can be wrong with a pattern. -/
inductive Flaw where
  | unclosedClass
  | longRun
  | partialComponent
  deriving DecidableEq, Repr

/-- A flaw and its place, as the number of characters before it. -/
structure Fault where
  position : Nat
  flaw : Flaw
  deriving DecidableEq, Repr

def Flaw.message : Flaw → Text
  | .unclosedClass => "invalid range pattern"
  | .longRun => "wildcards are either regular `*` or recursive `**`"
  | .partialComponent => "recursive wildcards must form a single path component"

def Fault.message (fault : Fault) : Text :=
  .concat ["Pattern syntax error near position ", .number fault.position, ": ",
    fault.flaw.message]

/-- The members of a class. A hyphen between two characters makes a range of them. -/
def ranges : Text → List Range
  | [] => []
  | a :: '-' :: b :: rest => .between a b :: ranges rest
  | a :: rest => .one a :: ranges rest

/-- The members of a class up to its closing bracket, which cannot be the first of them. -/
def classMembers? : Text → Option Text
  | [] => none
  | first :: rest =>
    if rest.contains ']' then some (first :: rest.takeWhile (· != ']')) else none

/-- The pieces of the text that follows `position` characters, the last of them `previous`. -/
def parseFrom (position : Nat) (previous : Option Char) :
    Text → Except Fault (List Piece)
  | [] => .ok []
  | '?' :: rest => do
    return .anyChar :: (← parseFrom (position + 1) '?' rest)
  | '*' :: '*' :: '*' :: _ => .error ⟨position + 2, .longRun⟩
  | '*' :: '*' :: rest =>
    if previous.all (· == '/') then
      match rest with
      | [] => .ok [.anyFolders]
      | c :: rest =>
        if c = '/' then do
          return .anyFolders :: (← parseFrom (position + 3) '/' rest)
        else .error ⟨position + 2, .partialComponent⟩
    else .error ⟨position - 1, .partialComponent⟩
  | '*' :: rest => do
    return .anyRun :: (← parseFrom (position + 1) '*' rest)
  | '[' :: '!' :: rest =>
    match classMembers? rest with
    | some members => do
      return .noneOf (ranges members) ::
        (← parseFrom (position + members.length + 3) ']' (rest.drop (members.length + 1)))
    | none => .error ⟨position, .unclosedClass⟩
  | '[' :: rest =>
    match classMembers? rest with
    | some members => do
      return .oneOf (ranges members) ::
        (← parseFrom (position + members.length + 2) ']' (rest.drop (members.length + 1)))
    | none => .error ⟨position, .unclosedClass⟩
  | c :: rest => do
    return .char c :: (← parseFrom (position + 1) c rest)
  termination_by text => text.length
  decreasing_by all_goals simp only [List.length_cons, List.length_drop]; omega

/-- The pattern that the text describes. -/
def Pattern.parse (text : Text) : Except Fault Pattern :=
  return ⟨← parseFrom 0 none text⟩

/-- A character without a meaning of its own in patterns. -/
def isPlain (c : Char) : Bool := c != '?' && c != '*' && c != '['

theorem parseFrom_plain {text : Text} (h : ∀ c ∈ text, isPlain c = true) (position : Nat)
    (previous : Option Char) : parseFrom position previous text = .ok (text.map .char) := by
  induction text generalizing position previous with
  | nil => simp [parseFrom]
  | cons c rest ih =>
    have hc := h c (by simp)
    simp only [isPlain, Bool.and_eq_true, bne_iff_ne, ne_eq] at hc
    rw [parseFrom]
    · rw [ih fun x hx => h x (by simp [hx])]
      rfl
    all_goals simp_all

/-- **A plain text is the pattern of itself.** -/
theorem Pattern.parse_plain {text : Text} (h : ∀ c ∈ text, isPlain c = true) :
    Pattern.parse text = .ok ⟨text.map .char⟩ := by
  rw [Pattern.parse, parseFrom_plain h]
  rfl

end Stencil.Glob
