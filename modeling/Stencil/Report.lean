import Stencil.Keyed
import Stencil.Text.Order

/-!
# Reports

What a run leaves to be said: how many files were rendered, and which placeholders were left in
each.

* `mem_addFile_iff`: adding a file loses nothing.
* `lookup_addFile`: what is told of a file is what was added last.
* `hasUnresolved_iff`: something is left exactly if some file has a placeholder left.
-/

namespace Stencil

/-- The outcome of a run. -/
structure Report where
  filesProcessed : Nat
  /-- The placeholders left in each file, by its name, in the order of the names. -/
  unresolved : List (Text × List Text)
  deriving DecidableEq, Repr

namespace Report

/-- The placeholders by file, with those of one more file. -/
def addFile (name : Text) (tokens : List Text) (files : List (Text × List Text)) :
    List (Text × List Text) :=
  insertBy (fun a b => Text.before a.1 b.1) (name, tokens) files

/-- Whether a placeholder was left in some file. -/
def hasUnresolved (report : Report) : Bool := report.unresolved.any fun file => !file.2.isEmpty

/-- The number of placeholders left, over all files. -/
def unresolvedCount (report : Report) : Nat := (report.unresolved.flatMap Prod.snd).length

/-- The files in which a placeholder was left. -/
def filesWithUnresolved (report : Report) : List (Text × List Text) :=
  report.unresolved.filter fun file => !file.2.isEmpty

/-- **Adding a file loses nothing**, if the files of one name have the same placeholders. -/
theorem mem_addFile_iff {left : Text → List Text} {name : Text} {files : List (Text × List Text)}
    {file : Text × List Text} (h : ∀ file ∈ files, file.2 = left file.1) :
    file ∈ addFile name (left name) files ↔ file = (name, left name) ∨ file ∈ files := by
  refine mem_insertBy_iff fun other hother hbefore hafter => ?_
  have hname : name = other.1 := Text.eq_of_not_before hbefore hafter
  rw [hname, ← h other hother]

/-- **What is told of a file** is what was added last for its name. -/
theorem lookup_addFile (name other : Text) (tokens : List Text) (files : List (Text × List Text)) :
    (addFile name tokens files).lookup other =
      if other = name then some tokens else files.lookup other := by
  induction files with
  | nil => exact lookup_cons_pair (name, tokens) other []
  | cons file files ih =>
    unfold addFile at ih ⊢
    unfold insertBy
    split
    · exact lookup_cons_pair (name, tokens) other _
    · next hbefore =>
      split
      · next hafter =>
        -- the file that is passed has another name
        have hne : name ≠ file.1 := by
          rintro rfl
          exact hbefore hafter
        rw [lookup_cons_pair, lookup_cons_pair, ih]
        by_cases h : other = name
        · simp [h, hne]
        · simp [h]
      · next hafter =>
        have hname : name = file.1 :=
          Text.eq_of_not_before (by simpa using hbefore) (by simpa using hafter)
        rw [lookup_cons_pair, lookup_cons_pair, hname]
        by_cases h : other = file.1 <;> simp [h]

theorem hasUnresolved_iff {report : Report} :
    report.hasUnresolved = true ↔ ∃ file ∈ report.unresolved, file.2 ≠ [] := by
  simp [hasUnresolved, List.any_eq_true]

end Report

end Stencil
