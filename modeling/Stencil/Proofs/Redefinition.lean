import Mathlib.Data.Finset.Card
import Stencil.Proofs.Layout

/-!
# Keys that are defined again

A store is made by definitions, one after the other. However often a key is defined, it is in the
store once: at the place of its first definition, with the value of its last. Whether the
definitions are made one by one, come as a list, or are the lines of a variable file, does not
matter.

* `IsLast`: the last definition of a key in a sequence.
* `Variables.Records`: **what a store keeps of a sequence of definitions**.
* `Variables.Records.define`: one more definition.
* `Variables.parse_eq_ok_iff`: a file is read into the store of its lines.
* `Variables.store_of_definitions`: **a store has each key once, in the order of first definition
  and with its last value**, in whichever way it is made.
-/

namespace Stencil

variable {definitions : List (Text × Text)} {key value other text content : Text}

/-- The last definition of the key gives it the value. -/
def IsLast (definitions : List (Text × Text)) (key value : Text) : Prop :=
  ∃ before after, definitions = before ++ (key, value) :: after ∧ key ∉ after.map Prod.fst

/-- An element of a list that grows at its end is the new one, or it was there before. -/
theorem concat_eq_append_cons_iff {α : Type} {items before after : List α} {last item : α} :
    items ++ [last] = before ++ item :: after ↔
      (after = [] ∧ items = before ∧ last = item) ∨
        ∃ later, after = later ++ [last] ∧ items = before ++ item :: later := by
  constructor
  · intro h
    rcases List.eq_nil_or_concat' after with rfl | ⟨later, newest, rfl⟩
    · have hitems := List.append_inj_left' h rfl
      have hlast := List.append_inj_right' h rfl
      exact .inl ⟨rfl, hitems, (List.cons.inj hlast).1⟩
    · rw [← List.cons_append, ← List.append_assoc] at h
      have hitems := List.append_inj_left' h rfl
      have hlast := List.append_inj_right' h rfl
      exact .inr ⟨later, by rw [hlast], hitems⟩
  · rintro (⟨rfl, rfl, rfl⟩ | ⟨later, rfl, rfl⟩)
    · rfl
    · rw [List.append_assoc, List.cons_append]

/-- The key that is defined at the end has the value from there. -/
theorem isLast_concat_self : IsLast (definitions ++ [(key, value)]) key text ↔ text = value := by
  constructor
  · rintro ⟨before, after, hsplit, hafter⟩
    rcases concat_eq_append_cons_iff.1 hsplit with ⟨-, -, hlast⟩ | ⟨later, rfl, -⟩
    · cases hlast
      rfl
    · -- the definition at the end would come after the last one
      rw [List.map_append, List.mem_append, not_or] at hafter
      exact absurd (List.mem_singleton_self key) hafter.2
  · rintro rfl
    exact ⟨definitions, [], rfl, List.not_mem_nil⟩

/-- Another key keeps its last definition. -/
theorem isLast_concat_of_ne (h : other ≠ key) :
    IsLast (definitions ++ [(key, value)]) other text ↔ IsLast definitions other text := by
  constructor
  · rintro ⟨before, after, hsplit, hafter⟩
    rcases concat_eq_append_cons_iff.1 hsplit with ⟨-, -, hlast⟩ | ⟨later, rfl, hearlier⟩
    · cases hlast
      exact absurd rfl h
    · rw [List.map_append, List.mem_append, not_or] at hafter
      exact ⟨before, later, hearlier, hafter.1⟩
  · rintro ⟨before, after, rfl, hafter⟩
    refine ⟨before, after ++ [(key, value)], by simp, ?_⟩
    rw [List.map_append, List.mem_append, not_or]
    exact ⟨hafter, by simpa using h⟩

/-- A key that is defined has a last definition. -/
theorem exists_isLast_iff : (∃ value, IsLast definitions key value) ↔
    key ∈ definitions.map Prod.fst := by
  induction definitions using List.reverseRecOn with
  | nil =>
    constructor
    · rintro ⟨value, before, after, hsplit, -⟩
      simp at hsplit
    · intro hmem
      cases hmem
  | append_singleton definitions definition ih =>
    obtain ⟨last, value⟩ := definition
    rw [List.map_append, List.mem_append]
    by_cases hkey : key = last
    · subst hkey
      simp [isLast_concat_self]
    · simp [isLast_concat_of_ne hkey, ih, hkey]

namespace Variables

variable {store result : Variables}

/-- **Stores that are made by single definitions**, beginning with the store that has none. -/
inductive Built : List (Text × Text) → Variables → Prop
  | empty : Built [] empty
  | define {definitions : List (Text × Text)} {store : Variables} (key value : Text)
      (earlier : Built definitions store) :
      Built (definitions ++ [(key, value)]) (store.define key value)

theorem ofList_concat (definitions : List (Text × Text)) (key value : Text) :
    ofList (definitions ++ [(key, value)]) = (ofList definitions).define key value := by
  unfold ofList
  rw [List.foldl_append]
  rfl

/-- **Single definitions make the store of their list.** -/
theorem built_iff : Built definitions store ↔ store = ofList definitions := by
  constructor
  · intro h
    induction h with
    | empty => rfl
    | define key value earlier ih => rw [ofList_concat, ih]
  · rintro rfl
    induction definitions using List.reverseRecOn with
    | nil => exact .empty
    | append_singleton definitions definition ih =>
      obtain ⟨key, value⟩ := definition
      rw [ofList_concat]
      exact ih.define key value

/-- **What a store keeps of a sequence of definitions**: the keys in the order of their first
definitions, and for each key the value of its last. -/
structure Records (definitions : List (Text × Text)) (store : Variables) : Prop where
  order : store.keys.Pairwise fun key next =>
    (definitions.map Prod.fst).idxOf key < (definitions.map Prod.fst).idxOf next
  value : ∀ key value, store.get? key = some value ↔ IsLast definitions key value

namespace Records

variable (h : Records definitions store)
include h

theorem mem_keys_iff : key ∈ store.keys ↔ key ∈ definitions.map Prod.fst := by
  rw [Variables.mem_keys_iff, ← exists_isLast_iff]
  exact exists_congr fun value => h.value key value

theorem get?_eq_none_iff : store.get? key = none ↔ key ∉ definitions.map Prod.fst := by
  rw [Option.eq_none_iff_forall_ne_some, ← h.mem_keys_iff, Variables.mem_keys_iff, not_exists]

/-- No key comes twice. -/
theorem keys_nodup : store.keys.Nodup := by
  refine h.order.imp fun hlt heq => ?_
  rw [heq] at hlt
  exact absurd hlt (Nat.lt_irrefl _)

/-- There are as many entries as different keys. -/
theorem size_eq : store.size = (definitions.map Prod.fst).toFinset.card := by
  have hsame : store.keys.toFinset = (definitions.map Prod.fst).toFinset := by
    ext key
    rw [List.mem_toFinset, List.mem_toFinset, h.mem_keys_iff]
  have hlength : store.keys.length = store.size := List.length_map _
  rw [← hsame, List.toFinset_card_of_nodup h.keys_nodup, hlength]

/-- The entries are the keys with the values of their last definitions. -/
theorem mem_entries_iff : (key, value) ∈ store.entries ↔ IsLast definitions key value := by
  rw [← h.value]
  constructor
  · exact lookup_eq_some_of_mem h.keys_nodup
  · intro hget
    obtain ⟨first, rest, hsplit, -⟩ := exists_split_of_get? hget
    rw [hsplit]
    simp

/-- **One more definition** puts a new key at the end, and gives a key that is there a new value. -/
theorem define (key value : Text) :
    Records (definitions ++ [(key, value)]) (store.define key value) := by
  have hkeys : (definitions ++ [(key, value)]).map Prod.fst = definitions.map Prod.fst ++ [key] := by
    rw [List.map_append, List.map_singleton]
  -- the places of the first definitions stay
  have hplace : ∀ {old}, old ∈ store.keys →
      (definitions.map Prod.fst ++ [key]).idxOf old = (definitions.map Prod.fst).idxOf old := by
    intro old hold
    exact List.idxOf_append_of_mem (h.mem_keys_iff.1 hold)
  have hold : store.keys.Pairwise fun first next =>
      (definitions.map Prod.fst ++ [key]).idxOf first <
        (definitions.map Prod.fst ++ [key]).idxOf next := by
    refine h.order.imp_of_mem fun hfirst hnext hlt => ?_
    rwa [hplace hfirst, hplace hnext]
  refine ⟨?_, fun other text => ?_⟩
  · rw [hkeys, keys_define]
    split
    · exact hold
    · next hnew =>
      refine List.pairwise_append.2 ⟨hold, List.pairwise_singleton _ _,
        fun first hfirst next hnext => ?_⟩
      have hfresh : key ∉ definitions.map Prod.fst := fun hmem => hnew (h.mem_keys_iff.2 hmem)
      have hlt := List.idxOf_lt_length_iff.2 (h.mem_keys_iff.1 hfirst)
      rw [List.mem_singleton.1 hnext, hplace hfirst, List.idxOf_append_of_notMem hfresh]
      omega
  · by_cases hother : other = key
    · subst hother
      rw [get?_define_self, isLast_concat_self, Option.some.injEq, eq_comm]
    · rw [get?_define_of_ne store value hother, isLast_concat_of_ne hother, h.value]

end Records

/-- **The store of a sequence keeps its first places and last values.** -/
theorem records_ofList (definitions : List (Text × Text)) :
    Records definitions (ofList definitions) := by
  induction definitions using List.reverseRecOn with
  | nil =>
    refine ⟨List.Pairwise.nil, fun key value => ?_⟩
    have hnone : ¬ ∃ value, IsLast [] key value := by
      rw [exists_isLast_iff]
      exact List.not_mem_nil
    constructor
    · intro hget
      cases hget
    · exact fun hlast => absurd ⟨value, hlast⟩ hnone
  | append_singleton definitions definition ih =>
    obtain ⟨key, value⟩ := definition
    rw [ofList_concat]
    exact ih.define key value

/-- Lines are read into a store if each of them is a definition. -/
theorem defineLines_eq_ok_iff {lines : List (Nat × Text)} :
    defineLines store lines = .ok result ↔
      ∃ definitions : List (Text × Text),
        (lines.map Prod.snd).map splitDefinition = definitions.map .ok ∧
        result = definitions.foldl (fun store (key, value) => store.define key value) store := by
  induction lines generalizing store with
  | nil =>
    rw [defineLines, Except.ok.injEq]
    constructor
    · rintro rfl
      exact ⟨[], rfl, rfl⟩
    · rintro ⟨definitions, hnil, rfl⟩
      rw [List.map_nil, List.map_nil, eq_comm, List.map_eq_nil_iff] at hnil
      rw [hnil]
      rfl
  | cons numbered lines ih =>
    obtain ⟨number, line⟩ := numbered
    rw [defineLines, List.map_cons, List.map_cons]
    cases hsplit : splitDefinition line with
    | error reason =>
      constructor
      · intro hok
        cases hok
      · rintro ⟨definitions, hall, -⟩
        cases definitions with
        | nil => cases hall
        | cons definition definitions => cases (List.cons.inj hall).1
    | ok definition =>
      obtain ⟨key, value⟩ := definition
      dsimp only
      rw [ih]
      constructor
      · rintro ⟨definitions, hall, rfl⟩
        exact ⟨(key, value) :: definitions, by rw [hall, List.map_cons], rfl⟩
      · rintro ⟨definitions, hall, rfl⟩
        cases definitions with
        | nil => cases hall
        | cons definition definitions =>
          obtain ⟨hfirst, hlater⟩ := List.cons.inj hall
          cases hfirst
          exact ⟨definitions, hlater, rfl⟩

/-- **A file is read into the store of the definitions on its lines**, if each line that counts is
one. -/
theorem parse_eq_ok_iff : parse content = .ok store ↔
    ∃ definitions : List (Text × Text),
      (significantLines content).map splitDefinition = definitions.map .ok ∧
      store = ofList definitions := by
  rw [← map_snd_definitionLines]
  exact defineLines_eq_ok_iff

/-- **A store has each key once, in the order of first definition and with its last value.** It is
the same store whether the definitions are made one by one, come as a list, or are the lines of a
file; and every store of a file is made by the definitions on its lines. -/
theorem store_of_definitions :
    (∀ content store, parse content = .ok store ↔
      ∃ definitions : List (Text × Text),
        (significantLines content).map splitDefinition = definitions.map .ok ∧
          store = ofList definitions) ∧
    ∀ definitions : List (Text × Text),
      (∀ store, Built definitions store ↔ store = ofList definitions) ∧
      ((∀ key value, (key, value) ∈ definitions → IsDefinition key value) →
        parse (print definitions) = .ok (ofList definitions)) ∧
      (ofList definitions).keys.Nodup ∧
      ((ofList definitions).keys.Pairwise fun key next =>
        (definitions.map Prod.fst).idxOf key < (definitions.map Prod.fst).idxOf next) ∧
      (∀ key value, (key, value) ∈ (ofList definitions).entries ↔ IsLast definitions key value) ∧
      (ofList definitions).size = (definitions.map Prod.fst).toFinset.card ∧
      ∀ key, (∀ value, (ofList definitions).get? key = some value ↔ IsLast definitions key value) ∧
        ((ofList definitions).get? key = none ↔ key ∉ definitions.map Prod.fst) := by
  refine ⟨fun content store => parse_eq_ok_iff, fun definitions => ?_⟩
  have hrecords := records_ofList definitions
  refine ⟨fun store => built_iff, parse_print_ofList, hrecords.keys_nodup, hrecords.order,
    fun key value => hrecords.mem_entries_iff, hrecords.size_eq, fun key => ⟨?_, ?_⟩⟩
  · exact hrecords.value key
  · exact hrecords.get?_eq_none_iff

/-- A key that is defined three times, around two others: it stays first and has its last value. -/
theorem store_of_definitions_again :
    let definitions : List (Text × Text) :=
      [(['A'], ['1']), (['B'], ['2']), (['A'], ['3']), (['C'], ['4']), (['A'], ['5'])]
    let store : Variables := ⟨[(['A'], ['5']), (['B'], ['2']), (['C'], ['4'])]⟩
    (∀ key value, (key, value) ∈ definitions → IsDefinition key value) ∧
      parse (print definitions) = .ok store ∧ Built definitions store ∧
      IsLast definitions ['A'] ['5'] ∧ store.get? ['D'] = none := by
  intro definitions store
  obtain ⟨-, hall⟩ := store_of_definitions
  have hstore : ofList definitions = store := by decide
  obtain ⟨hbuilt, hprint, -, -, -, -, hget⟩ := hall definitions
  have heach : ∀ definition ∈ definitions, IsDefinition definition.1 definition.2 := by decide
  rw [hstore] at hbuilt hprint hget
  have hread := hprint fun key value => heach (key, value)
  exact ⟨fun key value => heach (key, value), hread, (hbuilt store).2 rfl, ((hget ['A']).1 ['5']).1 rfl,
    (hget ['D']).2.2 (by decide)⟩

end Variables

end Stencil
