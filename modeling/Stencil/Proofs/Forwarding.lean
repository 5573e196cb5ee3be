import Stencil.Proofs.Undefined

/-!
# Placeholders in values

The entries of a store are put in one after the other, so what a value brings in is only searched
for the keys after its own. With well separated delimiters the placeholder of a key waits untouched
for its turn, whatever the values are.

* `substitute_append`, `renderEntries_append_wrap`: the placeholder of a key stays where it is while
  other keys are put in.
* `Delimiters.expansion`: what the placeholder of a key becomes when its turn comes.
* `Delimiters.render_wrap`: **a placeholder of a key becomes its expansion, rendered with the
  entries after it.** So a placeholder in a value is only replaced for a key that comes later.
-/

namespace Stencil.Delimiters

open Text

variable (d : Delimiters)

/-- What the placeholder of a key becomes when its turn comes. After the value in HTML was put in,
the plain placeholders of the key in it are replaced, too. -/
def expansion (key value : Text) : Form → Text
  | .plain => value
  | .encoded => replaceAll (d.plain.wrap key) value (Html.escape value)

variable {d} {store : Variables} {entries first rest : List (Text × Text)}
  {key value name before after : Text} {form : Form}

theorem renderEntries_append (text : Text) :
    d.renderEntries (first ++ rest) text = d.renderEntries rest (d.renderEntries first text) :=
  List.foldl_append

theorem renderEntries_cons (text : Text) :
    d.renderEntries ((key, value) :: rest) text =
      d.renderEntries rest (d.substitute key value text) := rfl

theorem substitute_eq (key value text : Text) :
    d.substitute key value text = replaceAll ((d.pair .plain).wrap key) value
      (replaceAll ((d.pair .encoded).wrap key) (Html.escape value) text) := rfl

/-- Nothing is put into the empty text. -/
theorem renderEntries_nil (entries : List (Text × Text)) : d.renderEntries entries [] = [] := by
  induction entries with
  | nil => rfl
  | cons entry entries ih =>
    rw [renderEntries_cons, substitute_eq, replaceAll_nil, replaceAll_nil, ih]

namespace WellSeparated

variable (sep : d.WellSeparated)
include sep

/-- **A placeholder stays where it is while another key is put in**, and what stands before and
after it changes as if it stood alone. -/
theorem substitute_append (hkey : d.Unmarked key) (hname : d.Unmarked name) (hne : name ≠ key)
    (before after : Text) :
    d.substitute key value (before ++ (d.pair form).wrap name ++ after) =
      d.substitute key value before ++ (d.pair form).wrap name ++
        d.substitute key value after := by
  have hspares : ∀ other before,
      Spares ((d.pair other).wrap key) before ((d.pair form).wrap name) := by
    intro other before
    refine sep.spares_wrap hname hkey fun heq => hne ?_
    exact (sep.wrap_inj (x := []) (y := []) hname hkey (by rw [heq])).2
  rw [substitute_eq, replaceAll_of_spares (wrap_ne_nil .encoded key) (hspares .encoded before),
    replaceAll_of_spares (wrap_ne_nil .plain key) (hspares .plain _), ← substitute_eq,
    ← substitute_eq]

/-- **A placeholder stays where it is while other keys are put in.** -/
theorem renderEntries_append_wrap (form : Form) (hkeys : ∀ entry ∈ entries, d.Unmarked entry.1)
    (hname : d.Unmarked name) (hnew : name ∉ entries.map Prod.fst) (before after : Text) :
    d.renderEntries entries (before ++ (d.pair form).wrap name ++ after) =
      d.renderEntries entries before ++ (d.pair form).wrap name ++
        d.renderEntries entries after := by
  induction entries generalizing before after with
  | nil => rfl
  | cons entry entries ih =>
    obtain ⟨key, value⟩ := entry
    rw [List.map_cons, List.mem_cons, not_or] at hnew
    have hkey := hkeys (key, value) List.mem_cons_self
    rw [renderEntries_cons, sep.substitute_append hkey hname hnew.1]
    exact ih (fun entry he => hkeys entry (List.mem_cons_of_mem _ he)) hnew.2 _ _

/-- The placeholder of a key becomes its expansion when its turn comes. -/
theorem substitute_wrap (hkey : d.Unmarked key) (form : Form) :
    d.substitute key value ((d.pair form).wrap key) = d.expansion key value form := by
  rw [substitute_eq]
  cases form with
  | plain =>
    have hforms : (d.pair .encoded).wrap key ≠ (d.pair .plain).wrap key := by
      intro heq
      have happ : (d.pair .encoded).wrap key ++ [] = (d.pair .plain).wrap key ++ [] := by rw [heq]
      exact Form.noConfusion (sep.wrap_inj hkey hkey happ).1
    -- the encoded placeholder does not touch the plain one, so it does not stand in it
    have hnot : ¬ (d.pair .encoded).wrap key <:+: (d.pair .plain).wrap key := by
      have hspares : Spares ((d.pair .encoded).wrap key) [] ((d.pair .plain).wrap key) :=
        sep.spares_wrap hkey hkey hforms
      have hiff : (d.pair .encoded).wrap key <:+: [] ++ (d.pair .plain).wrap key ++ [] ↔ _ :=
        infix_iff_of_spares hspares
      rw [List.nil_append, List.append_nil] at hiff
      simp [hiff, wrap_ne_nil]
    rw [replaceAll_of_not_isInfix hnot, replaceAll_self (wrap_ne_nil .plain key)]
    rfl
  | encoded =>
    rw [replaceAll_self (wrap_ne_nil .encoded key)]
    rfl

end WellSeparated

/-- A placeholder of a key waits for its turn, becomes its expansion, and is rendered on. -/
theorem WellSeparated.renderEntries_wrap (sep : d.WellSeparated)
    (names : ∀ entry ∈ first ++ (key, value) :: rest, isName entry.1 = true)
    (hnew : key ∉ first.map Prod.fst) (form : Form) :
    d.renderEntries (first ++ (key, value) :: rest) ((d.pair form).wrap key) =
      d.renderEntries rest (d.expansion key value form) := by
  have hkey : d.Unmarked key :=
    sep.unmarked_of_isName (names (key, value) (List.mem_append_right _ List.mem_cons_self))
  have hfirst : ∀ entry ∈ first, d.Unmarked entry.1 := fun entry he =>
    sep.unmarked_of_isName (names entry (List.mem_append_left _ he))
  have hwait := sep.renderEntries_append_wrap form hfirst hkey hnew [] []
  rw [renderEntries_nil, List.nil_append, List.append_nil] at hwait
  rw [renderEntries_append, hwait, renderEntries_cons, sep.substitute_wrap hkey form]

/-- **A placeholder of a key becomes its expansion, rendered with the entries after it.** So a
placeholder in the expansion is left where it is, unless its key comes later: also the one of the
key itself, which is replaced once at most, in the value of an encoded placeholder. -/
theorem render_wrap (sep : d.WellSeparated) (names : ∀ key ∈ store.keys, isName key = true)
    (nodup : store.keys.Nodup) {i : Nat} (hentry : store.entries[i]? = some (key, value)) :
    let later : Variables := ⟨store.entries.drop (i + 1)⟩
    (d.render store (d.plain.wrap key) = d.render later value ∧
      d.render store (d.encoded.wrap key) =
        d.render later (replaceAll (d.plain.wrap key) value (Html.escape value))) ∧
    (∀ name ∈ (store.entries.take (i + 1)).map Prod.fst, name ∉ later.keys) ∧
    ∀ form other name before after, isName name = true → name ∉ later.keys →
      d.expansion key value form = before ++ (d.pair other).wrap name ++ after →
        d.render store ((d.pair form).wrap key) =
          d.render later before ++ (d.pair other).wrap name ++ d.render later after := by
  intro later
  obtain ⟨hi, hget⟩ := List.getElem?_eq_some_iff.1 hentry
  have hsplit : store.entries = store.entries.take i ++ (key, value) :: later.entries := by
    rw [← hget, List.cons_getElem_drop_succ, List.take_append_drop]
  have hnames : ∀ entry ∈ store.entries, isName entry.1 = true :=
    fun entry he => names entry.1 (List.mem_map_of_mem he)
  -- the keys up to this one are none of those after it
  have hparts : ((store.entries.take (i + 1)).map Prod.fst ++ later.keys).Nodup := by
    rw [Variables.keys, ← List.map_append, List.take_append_drop]
    exact nodup
  have hapart := (List.nodup_append.1 hparts).2.2
  have hnew : key ∉ (store.entries.take i).map Prod.fst := by
    rw [Variables.keys, hsplit, List.map_append] at nodup
    exact fun hmem => (List.nodup_append.1 nodup).2.2 key hmem key List.mem_cons_self rfl
  have hturn : ∀ form, d.render store ((d.pair form).wrap key) =
      d.render later (d.expansion key value form) := by
    intro form
    rw [render, hsplit]
    exact sep.renderEntries_wrap (hsplit ▸ hnames) hnew form
  refine ⟨⟨hturn .plain, hturn .encoded⟩, fun name hmem hlater => hapart name hmem name hlater rfl,
    fun form other name before after hname hother hexpansion => ?_⟩
  have hlater : ∀ entry ∈ later.entries, d.Unmarked entry.1 := fun entry he =>
    sep.unmarked_of_isName (hnames entry (List.mem_of_mem_drop he))
  rw [hturn, hexpansion]
  exact sep.renderEntries_append_wrap other hlater (sep.unmarked_of_isName hname) hother before after

/-- A value with the placeholders of the key before its own, of the key after it and of its own key.
Only the one in the middle is replaced, and in the encoded form its own one once. -/
theorem render_wrap_between :
    let value := standard.plain.wrap ['A'] ++ standard.plain.wrap ['C'] ++ standard.plain.wrap ['B']
    let store : Variables := ⟨[(['A'], ['1']), (['B'], value), (['C'], ['3'])]⟩
    let once := standard.plain.wrap ['A'] ++ ['3']
    (standard.WellSeparated ∧ (∀ key ∈ store.keys, isName key = true) ∧ store.keys.Nodup ∧
      store.entries[1]? = some (['B'], value)) ∧
    standard.render store (standard.plain.wrap ['B']) = once ++ standard.plain.wrap ['B'] ∧
    standard.render store (standard.encoded.wrap ['B']) =
      once ++ once ++ standard.plain.wrap ['B'] := by
  intro value store once
  have names : ∀ key ∈ store.keys, isName key = true := by decide
  have nodup : store.keys.Nodup := by decide
  have hentry : store.entries[1]? = some (['B'], value) := rfl
  have hforward := (render_wrap standard_wellSeparated names nodup hentry).1
  exact ⟨⟨standard_wellSeparated, names, nodup, hentry⟩,
    hforward.1.trans (by decide +kernel), hforward.2.trans (by decide +kernel)⟩

end Stencil.Delimiters
