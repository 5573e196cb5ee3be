import Stencil.Keyed
import Stencil.Text.Basic

/-!
# Variables

A store of values by key. A key keeps the place of its first definition and the value of its last.

* `get?_define_self`, `get?_define_of_ne`: what a definition does to the values.
* `keys_define`: what it does to the keys.
* `mem_keys_iff`: a key is one that has a value.
-/

namespace Stencil

/-- Keys with their values, in the order of first definition. -/
structure Variables where
  entries : List (Text × Text)
  deriving DecidableEq, Repr

namespace Variables

/-- The store without definitions. -/
def empty : Variables := ⟨[]⟩

/-- The store after one more definition. -/
def define (store : Variables) (key value : Text) : Variables :=
  ⟨putKey key value store.entries⟩

/-- The store of the definitions, made one after the other. -/
def ofList (definitions : List (Text × Text)) : Variables :=
  definitions.foldl (fun store (key, value) => store.define key value) empty

/-- The value of a key. -/
def get? (store : Variables) (key : Text) : Option Text := store.entries.lookup key

/-- The keys, in the order of first definition. -/
def keys (store : Variables) : List Text := store.entries.map Prod.fst

/-- Whether the key has a value. -/
def has (store : Variables) (key : Text) : Bool := store.keys.contains key

/-- The number of keys. -/
def size (store : Variables) : Nat := store.entries.length

/-- Whether there is no key. -/
def isEmpty (store : Variables) : Bool := store.entries.isEmpty

theorem get?_define_self (store : Variables) (key value : Text) :
    (store.define key value).get? key = some value :=
  lookup_putKey_self key value store.entries

theorem get?_define_of_ne (store : Variables) {key other : Text} (value : Text)
    (h : other ≠ key) : (store.define key value).get? other = store.get? other :=
  lookup_putKey_of_ne value store.entries h

/-- A definition adds its key at the end, unless the store has it. -/
theorem keys_define (store : Variables) (key value : Text) :
    (store.define key value).keys =
      if key ∈ store.keys then store.keys else store.keys ++ [key] :=
  keys_putKey key value store.entries

/-- A key is one that has a value. -/
theorem mem_keys_iff {store : Variables} {key : Text} :
    key ∈ store.keys ↔ ∃ value, store.get? key = some value := by
  rw [keys, get?, ← Option.isSome_iff_exists, List.lookup_isSome_iff]
  simp only [List.mem_map, beq_iff_eq]
  exact exists_congr fun entry => and_congr_right fun _ => eq_comm

theorem exists_split_of_get? {store : Variables} {key value : Text}
    (h : store.get? key = some value) :
    ∃ first rest, store.entries = first ++ (key, value) :: rest ∧ key ∉ first.map Prod.fst := by
  obtain ⟨first, rest, hsplit, hfirst⟩ := List.lookup_eq_some_iff.1 h
  refine ⟨first, rest, hsplit, fun hkey => ?_⟩
  obtain ⟨entry, hentry, rfl⟩ := List.mem_map.1 hkey
  simpa using hfirst entry hentry

end Variables

end Stencil
