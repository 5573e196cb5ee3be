import Stencil.Glob.Pattern
import Stencil.Text.Order

/-!
# Matching a name

A pattern fits a name as a whole. A run may be empty and may hold any characters; folders end at a
slash or at the end of the name. The pieces are taken one after the other, each with all that can
remain of the name after the pieces before it, so that no part of the name is tried twice.

* `fits_chars_iff`: a pattern of characters fits exactly the text of them.
* `fits_anyRun`: a single run fits every name.
-/

namespace Stencil.Glob

/-- Whether the character is a member. -/
def Range.has (c : Char) : Range → Bool
  | .one d => c == d
  | .between first last => first ≤ c && c ≤ last

/-- Whether the piece stands for this single character. -/
def Piece.accepts (c : Char) : Piece → Bool
  | .char d => c == d
  | .anyChar => true
  | .oneOf ranges => ranges.any (·.has c)
  | .noneOf ranges => !ranges.any (·.has c)
  | .anyRun | .anyFolders => false

/-- What remains of the text after a single character that the piece stands for. -/
def Piece.afterChar? (piece : Piece) : Text → Option Text
  | [] => none
  | c :: rest => if piece.accepts c then some rest else none

/-- The ends of the text: the text itself and what remains after each of its characters. -/
def ends : Text → List Text
  | [] => [[]]
  | c :: rest => (c :: rest) :: ends rest

/-- What remains after each slash of the text, and nothing. -/
def endsAfterSlash : Text → List Text
  | [] => [[]]
  | c :: rest => if c = '/' then rest :: endsAfterSlash rest else endsAfterSlash rest

/-- The ends of one text, the longest first, with one more end of it. -/
def insertEnd (text : Text) (texts : List Text) : List Text :=
  insertBy (fun a b => decide (b.length < a.length)) text texts

/-- What can remain after the piece, where one of the given texts remained before it. These are ends
of one text, the longest first, and so are the results. -/
def Piece.after : Piece → List Text → List Text
  | _, [] => []
  | .anyRun, longest :: _ => ends longest
  | .anyFolders, longest :: others =>
    (endsAfterSlash longest).foldl (fun texts text => insertEnd text texts) (longest :: others)
  | piece, texts => texts.filterMap piece.afterChar?

/-- What can remain of the texts after all pieces. -/
def remaining (pieces : List Piece) (texts : List Text) : List Text :=
  pieces.foldl (fun texts piece => piece.after texts) texts

/-- Whether the pattern fits the name. -/
def Pattern.fits (pattern : Pattern) (name : Text) : Bool :=
  (remaining pattern.pieces [name]).any List.isEmpty

theorem remaining_nil (pieces : List Piece) : remaining pieces [] = [] := by
  induction pieces with
  | nil => rfl
  | cons piece pieces ih =>
    have hnil : piece.after [] = [] := by cases piece <;> rfl
    rw [remaining, List.foldl_cons, hnil]
    exact ih

theorem fits_chars_iff {text name : Text} :
    Pattern.fits ⟨text.map .char⟩ name = true ↔ name = text := by
  unfold Pattern.fits
  induction text generalizing name with
  | nil => cases name <;> simp [remaining]
  | cons c text ih =>
    rw [List.map_cons, remaining, List.foldl_cons]
    cases name with
    | nil =>
      have hafter : (Piece.char c).after [[]] = [] := rfl
      rw [hafter]
      have := remaining_nil (text.map .char)
      rw [remaining] at this
      simp [this]
    | cons d name =>
      by_cases h : d = c
      · have hafter : (Piece.char c).after [d :: name] = [name] := by
          simp [Piece.after, Piece.afterChar?, Piece.accepts, h]
        rw [hafter]
        simpa [remaining, h] using @ih name
      · have hafter : (Piece.char c).after [d :: name] = [] := by
          simp [Piece.after, Piece.afterChar?, Piece.accepts, h]
        have := remaining_nil (text.map .char)
        rw [remaining] at this
        rw [hafter]
        simp [this, h]

theorem nil_mem_ends (text : Text) : [] ∈ ends text := by
  induction text with
  | nil => simp [ends]
  | cons c rest ih => simp [ends, ih]

theorem fits_anyRun (name : Text) : Pattern.fits ⟨[.anyRun]⟩ name = true := by
  simp only [Pattern.fits, remaining, List.foldl_cons, List.foldl_nil, Piece.after,
    List.any_eq_true]
  exact ⟨[], nil_mem_ends name, rfl⟩

end Stencil.Glob
