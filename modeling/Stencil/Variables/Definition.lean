import Stencil.Log
import Stencil.Path
import Stencil.Placeholder.Name
import Stencil.Text.Blank
import Stencil.Text.Utf8
import Stencil.Variables.Store

/-!
# Variable files

A variable file has one definition a line: a key, an equals sign and a value. Blanks around a line
do not count, and lines that are empty or start with a number sign are passed over.

* `countsAsDefinition_iff`: which lines are passed over.
* `splitDefinition_eq_ok_iff`: when a line is a definition, and of what.
* `Variables.parse`: the store of a file, or its first line that is no definition.
* `Variables.remarks`: what the log says about the definitions of a file.
-/

namespace Stencil

/-- Why a line is no definition. -/
inductive DefinitionFault where
  | noEqualsSign
  | emptyKey
  | emptyValue
  deriving DecidableEq, Repr

def DefinitionFault.message : DefinitionFault → Text
  | .noEqualsSign => "missing '=' between key and value"
  | .emptyKey => "empty key before '='"
  | .emptyValue => "empty value after '='"

/-- A line that is no definition: its number from one, its trimmed text, and why. -/
structure LineFault where
  line : Nat
  content : Text
  reason : DefinitionFault
  deriving DecidableEq, Repr

/-- The key before the first equals sign of the line, and the value after it. -/
def splitDefinition (line : Text) : Except DefinitionFault (Text × Text) :=
  match Text.cutAt? '=' line with
  | none => .error .noEqualsSign
  | some (key, value) =>
    if key.isEmpty then .error .emptyKey
    else if value.isEmpty then .error .emptyValue
    else .ok (key, value)

/-- Whether a trimmed line holds a definition, rather than nothing or a comment. -/
def countsAsDefinition (line : Text) : Bool := !line.isEmpty && line.head? != some '#'

/-- The trimmed lines that count, with their numbers, from the number `first` on. -/
def numberedLines : (first : Nat) → List Text → List (Nat × Text)
  | _, [] => []
  | first, line :: lines =>
    if countsAsDefinition line.trim then
      (first, line.trim) :: numberedLines (first + 1) lines
    else numberedLines (first + 1) lines

/-- The trimmed lines of a file that count, with their numbers from one. A byte order mark at the
start does not belong to the first line. -/
def definitionLines (content : Text) : List (Nat × Text) :=
  numberedLines 1 (splitAt '\n' content.dropMark)

namespace Variables

/-- The store after the definitions of the lines. -/
def defineLines : Variables → List (Nat × Text) → Except LineFault Variables
  | store, [] => .ok store
  | store, (number, line) :: lines =>
    match splitDefinition line with
    | .ok (key, value) => defineLines (store.define key value) lines
    | .error reason => .error ⟨number, line, reason⟩

/-- The store of a variable file. -/
def parse (content : Text) : Except LineFault Variables :=
  defineLines empty (definitionLines content)

/-- What the log says when a key is defined: that it was defined before. -/
def redefinitionRemark (store : Variables) (key : Text) : List Record :=
  if store.has key then
    [⟨.debug, .definitions, .concat ["Variable '", key, "' redefined, later definition wins"]⟩]
  else []

/-- What the log says about a list of definitions, made one after the other. -/
def redefinitionRemarks : Variables → List (Text × Text) → List Record
  | _, [] => []
  | store, (key, value) :: rest =>
    store.redefinitionRemark key ++ redefinitionRemarks (store.define key value) rest

/-- What the log says about the definitions of the lines, up to the first that is none. -/
def lineRemarks (file : Path) : Variables → List (Nat × Text) → List Record
  | _, [] => []
  | store, (number, line) :: lines =>
    match splitDefinition line with
    | .ok (key, value) =>
      let warning : List Record :=
        if isName key then []
        else [⟨.warn, .definitions, .concat [file.text, ":", .number number, ": key '", key,
          "' can never match a placeholder name"]⟩]
      warning ++ store.redefinitionRemark key ++
        lineRemarks file (store.define key value) lines
    | .error _ => []

/-- What the log says about the definitions of a variable file. -/
def remarks (file : Path) (content : Text) : List Record :=
  lineRemarks file empty (definitionLines content)

end Variables

theorem countsAsDefinition_iff {line : Text} :
    countsAsDefinition line = true ↔ line ≠ [] ∧ line.head? ≠ some '#' := by
  rw [countsAsDefinition, Bool.and_eq_true, Bool.not_eq_true', List.isEmpty_eq_false_iff,
    bne_iff_ne]

theorem splitDefinition_eq_ok_iff {line key value : Text} :
    splitDefinition line = .ok (key, value) ↔
      key ≠ [] ∧ '=' ∉ key ∧ value ≠ [] ∧ line = key ++ '=' :: value := by
  unfold splitDefinition
  constructor
  · intro h
    split at h
    · cases h
    · next k v hcut =>
      obtain ⟨hm, rfl⟩ := Text.cutAt?_eq_some_iff.1 hcut
      split at h
      · cases h
      · next hk =>
        split at h
        · cases h
        · next hv =>
          cases h
          exact ⟨by simpa using hk, hm, by simpa using hv, rfl⟩
  · rintro ⟨hk, hm, hv, rfl⟩
    rw [Text.cutAt?_eq_some_iff.2 ⟨hm, rfl⟩]
    simp [hk, hv]

end Stencil
