import Stencil.Proofs.Replacement
import Stencil.Proofs.Separation
import Stencil.Render

/-!
# Rendering as one substitution

The variables are put into a template one after the other. If the delimiters are well separated,
the values have nothing of delimiters and no placeholder of a key completes what stands before it,
the text in between never matters: all placeholders could be replaced in one go.

* `Substituted`: what a template becomes, placeholder by placeholder.
* `exists_substituted`: every such template becomes something.
* `replaceInTurn_eq`, `replaceEach_eq`: **both ways to replace give that**.
* `render_eq_replaceEach`: rendering is one scan, so the order of the variables does not matter.
-/

namespace Stencil

/-- What is written for a value in a placeholder of the form. -/
def Form.written : Form → Text → Text
  | .plain, value => value
  | .encoded, value => Html.escape value

theorem Html.escape_ne_nil {value : Text} (h : value ≠ []) : escape value ≠ [] := by
  obtain ⟨c, cs, rfl⟩ := List.exists_cons_of_ne_nil h
  have hc : escapeChar c ≠ [] := by
    unfold escapeChar
    repeat' split
    all_goals simp [Text.concat]
  rw [escape, List.flatMap_cons]
  simp [hc]

namespace Delimiters

open Text

variable (d : Delimiters)

/-- What is replaced for the entries: for each of them first the encoded placeholder, by the value
in HTML, and then the plain one, by the value. -/
def table (entries : List (Text × Text)) : List (Text × Text) :=
  entries.flatMap fun (key, value) =>
    [Form.encoded, .plain].map fun form => ((d.pair form).wrap key, form.written value)

/-- The text ends with an opening and name characters after it, so that what follows may complete
a placeholder. -/
def EndsOpen (text : Text) : Prop :=
  ∃ form run, (∀ c ∈ run, isNameChar c = true) ∧ (d.pair form).opening ++ run <:+ text

instance (text : Text) : Decidable (d.EndsOpen text) :=
  decidable_of_iff (∃ form, ∃ t ∈ text.tails, (d.pair form).opening <+: t ∧
      ∀ c ∈ t.drop (d.pair form).opening.length, isNameChar c = true)
    ⟨fun ⟨form, t, ht, ⟨run, hrun⟩, hname⟩ => by
        subst hrun
        rw [List.drop_left] at hname
        exact ⟨form, run, hname, (List.mem_tails _ _).1 ht⟩,
      fun ⟨form, run, hrun, hsuf⟩ =>
        ⟨form, _, (List.mem_tails _ _).2 hsuf, List.prefix_append _ _, by rwa [List.drop_left]⟩⟩

/-- No placeholder of the keys in the template follows a text that ends open. -/
def StandsFree (keys : List Text) (template : Text) : Prop :=
  ∀ form, ∀ key ∈ keys, ∀ before after, template = before ++ (d.pair form).wrap key ++ after →
    ¬ d.EndsOpen before

instance (keys : List Text) (template : Text) : Decidable (d.StandsFree keys template) :=
  decidable_of_iff (∀ form, ∀ key ∈ keys, ∀ n ∈ List.range (template.length + 1),
      (d.pair form).wrap key <+: template.drop n → ¬ d.EndsOpen (template.take n))
    ⟨fun h form key hkey before after heq => by
        have hlength : before.length ∈ List.range (template.length + 1) := by
          rw [List.mem_range, heq, List.length_append, List.length_append]
          omega
        have := h form key hkey before.length hlength
        simpa [heq] using this,
      fun h form key hkey n _ ⟨after, hafter⟩ =>
        h form key hkey (template.take n) after (by simp [hafter])⟩

/-- The keys of the store are names, and its values are not empty and have no character of the
delimiters, neither as they are nor in HTML. -/
structure Tame (store : Variables) : Prop where
  name : ∀ key ∈ store.keys, isName key = true
  ne_nil : ∀ key value, store.get? key = some value → value ≠ []
  unmarked : ∀ key value, store.get? key = some value →
    ∀ c ∈ value ++ Html.escape value, c ∉ d.marks

instance (store : Variables) : Decidable (d.Tame store) :=
  decidable_of_iff ((∀ key ∈ store.keys, isName key = true) ∧
      ∀ entry ∈ store.entries, store.get? entry.1 = some entry.2 →
        entry.2 ≠ [] ∧ ∀ c ∈ entry.2 ++ Html.escape entry.2, c ∉ d.marks)
    ⟨fun ⟨hname, hvalue⟩ =>
        have hmem : ∀ {key value}, store.get? key = some value → (key, value) ∈ store.entries :=
          fun h => by obtain ⟨_, _, hsplit, -⟩ := Variables.exists_split_of_get? h; simp [hsplit]
        ⟨hname, fun _ _ h => (hvalue _ (hmem h) h).1, fun _ _ h => (hvalue _ (hmem h) h).2⟩,
      fun h => ⟨h.name, fun _ _ hget => ⟨h.ne_nil _ _ hget, h.unmarked _ _ hget⟩⟩⟩

/-- The text has no placeholder of the keys. -/
def Lacks (keys : List Text) (text : Text) : Prop :=
  ∀ form, ∀ key ∈ keys, ¬ (d.pair form).wrap key <:+: text

/-- **What a template becomes**: up to its first placeholder of a key it is copied, the value takes
the place of the placeholder, and so on. -/
inductive Substituted (store : Variables) : Text → Text → Prop
  | copied {text : Text} (h : d.Lacks store.keys text) : Substituted store text text
  | replaced {form : Form} {key value before after result : Text}
      (hbefore : d.Lacks store.keys before) (hopen : ¬ d.EndsOpen before)
      (hvalue : store.get? key = some value) (h : Substituted store after result) :
      Substituted store (before ++ (d.pair form).wrap key ++ after)
        (before ++ form.written value ++ result)

variable {d} {store : Variables} {key value name text result before after : Text}
  {form other : Form}

theorem mem_table_iff {entries : List (Text × Text)} {entry : Text × Text} :
    entry ∈ d.table entries ↔ ∃ key value form, (key, value) ∈ entries ∧
      entry = ((d.pair form).wrap key, form.written value) := by
  simp only [table, List.mem_flatMap, List.mem_map]
  constructor
  · rintro ⟨⟨key, value⟩, h, form, -, rfl⟩
    exact ⟨key, value, form, h, rfl⟩
  · rintro ⟨key, value, form, h, rfl⟩
    exact ⟨(key, value), h, form, by cases form <;> simp, rfl⟩

theorem exists_key_of_mem_table {entry : Text × Text} (h : entry ∈ d.table store.entries) :
    ∃ key form, key ∈ store.keys ∧ entry.1 = (d.pair form).wrap key := by
  obtain ⟨key, value, form, hmem, rfl⟩ := mem_table_iff.1 h
  exact ⟨key, form, List.mem_map_of_mem (f := Prod.fst) hmem, rfl⟩

/-- A text lacks the placeholders of all keys if it has no text that the table replaces. -/
theorem lacks_iff : d.Lacks store.keys text ↔
    ∀ entry ∈ d.table store.entries, ¬ entry.1 <:+: text := by
  constructor
  · intro h entry hentry
    obtain ⟨key, form, hkey, hold⟩ := exists_key_of_mem_table hentry
    exact hold ▸ h form key hkey
  · intro h form key hkey
    obtain ⟨⟨key, value⟩, hmem, rfl⟩ := List.mem_map.1 hkey
    exact h _ (mem_table_iff.2 ⟨key, value, form, hmem, rfl⟩)

/-- Rendering replaces the entries of the table in turn. -/
theorem render_eq_replaceInTurn (store : Variables) (template : Text) :
    d.render store template = replaceInTurn (d.table store.entries) template := by
  obtain ⟨entries⟩ := store
  induction entries generalizing template with
  | nil => rfl
  | cons entry entries ih =>
    obtain ⟨key, value⟩ := entry
    rw [render_cons, ih]
    rfl

theorem Tame.unmarked_written (tame : d.Tame store) (h : store.get? key = some value) :
    d.Unmarked (form.written value) := by
  have hall := tame.unmarked key value h
  cases form
  · exact ⟨tame.ne_nil key value h, fun c hc => hall c (List.mem_append_left _ hc)⟩
  · exact ⟨Html.escape_ne_nil (tame.ne_nil key value h),
      fun c hc => hall c (List.mem_append_right _ hc)⟩

namespace WellSeparated

variable (sep : d.WellSeparated)
include sep

theorem unmarked_of_mem_keys (tame : d.Tame store) (h : key ∈ store.keys) : d.Unmarked key :=
  sep.unmarked_of_isName (tame.name key h)

/-- No other placeholder touches a placeholder. -/
theorem spares_wrap (hkey : d.Unmarked key) (hname : d.Unmarked name)
    (hne : (d.pair other).wrap name ≠ (d.pair form).wrap key) :
    Spares ((d.pair other).wrap name) before ((d.pair form).wrap key) := by
  intro x y after h
  rcases sep.wrap_apart hkey hname h with h | h | ⟨-, rfl, rfl⟩
  · exact .inl h
  · exact .inr h
  · exact absurd rfl hne

/-- **No placeholder touches a value** without marks, unless the text before it ends open. -/
theorem spares_value (hname : isName name = true) (hvalue : d.Unmarked value)
    (hopen : ¬ d.EndsOpen before) : Spares ((d.pair other).wrap name) before value := by
  intro x y after h
  obtain ⟨hopening, hclosing⟩ := pair_without (d := d) other
  have hrun := sep.unmarked_of_isName hname
  have hafter : StartsIn (¬ ¬ · ∉ d.marks) (value ++ after) := Pair.startsIn_name hvalue after
  rw [List.append_assoc, List.append_assoc, Pair.wrap_append] at h
  rcases List.append_eq_append_iff.1 h with ⟨s, rfl, h₁⟩ | ⟨s, rfl, h₁⟩
  · -- it starts after the text, so after the value as well
    obtain ⟨r, rfl, -⟩ := exists_of_append_eq h₁ hvalue.2 (hopening.startsIn _)
    exact .inr ⟨r, by simp⟩
  · -- it starts in the text; the value could only stand in its name
    obtain ⟨r, rfl, h₂⟩ := exists_of_append_eq h₁ hopening.2 hafter
    rcases List.append_eq_append_iff.1 h₂ with ⟨t, rfl, h₃⟩ | ⟨t, rfl, -⟩
    · obtain ⟨r, rfl, -⟩ := exists_of_append_eq h₃ hclosing.2 hafter
      exact .inl ⟨r, by simp [Pair.wrap]⟩
    · refine absurd ⟨other, r, fun c hc => ?_, List.suffix_append x _⟩ hopen
      exact (isName_iff.1 hname).2 c (by simp [hc])

/-- The entries of the table are those before the placeholder of a key, which are for others, the
one for it, and some after it. -/
theorem table_split (form : Form) (tame : d.Tame store) (h : store.get? key = some value) :
    ∃ first rest,
      d.table store.entries = first ++ ((d.pair form).wrap key, form.written value) :: rest ∧
      ∀ entry ∈ first, entry.1 ≠ (d.pair form).wrap key := by
  obtain ⟨first, rest, hsplit, hfirst⟩ := Variables.exists_split_of_get? h
  have hkey := sep.unmarked_of_mem_keys tame (Variables.mem_keys_iff.2 ⟨value, h⟩)
  have hother : ∀ entry ∈ d.table first, entry.1 ≠ (d.pair form).wrap key := by
    intro entry hentry heq
    obtain ⟨key', value', other, hmem, rfl⟩ := mem_table_iff.1 hentry
    have hkey' : key' ∈ store.keys := by
      rw [Variables.keys, hsplit]
      exact List.mem_map_of_mem (List.mem_append_left _ hmem)
    obtain ⟨-, rfl⟩ := sep.wrap_inj (x := []) (y := []) (sep.unmarked_of_mem_keys tame hkey') hkey
      (by simpa using heq)
    exact hfirst (List.mem_map_of_mem (f := Prod.fst) hmem)
  have htable : d.table store.entries =
      d.table first ++ ((d.encoded.wrap key, Html.escape value) ::
        (d.plain.wrap key, value) :: d.table rest) := by
    rw [hsplit]
    simp [table, Form.written, pair]
  cases form
  · refine ⟨d.table first ++ [(d.encoded.wrap key, Html.escape value)], d.table rest,
      by rw [htable]; simp [Form.written, pair], ?_⟩
    intro entry hentry
    rcases List.mem_append.1 hentry with hentry | hentry
    · exact hother entry hentry
    · obtain rfl := List.mem_singleton.1 hentry
      intro heq
      have heq' : (d.pair .encoded).wrap key ++ [] = (d.pair .plain).wrap key ++ [] := by
        rw [List.append_nil, List.append_nil]; exact heq
      exact Form.noConfusion (sep.wrap_inj hkey hkey heq').1
  · exact ⟨d.table first, (d.plain.wrap key, value) :: d.table rest,
      by rw [htable]; simp [Form.written, pair], hother⟩

theorem unmarked_of_mem_table (tame : d.Tame store) {entry : Text × Text}
    (h : entry ∈ d.table store.entries) :
    ∃ key form, key ∈ store.keys ∧ d.Unmarked key ∧ entry.1 = (d.pair form).wrap key := by
  obtain ⟨key, form, hkey, hold⟩ := exists_key_of_mem_table h
  exact ⟨key, form, hkey, sep.unmarked_of_mem_keys tame hkey, hold⟩

/-- **Every template becomes something**, if its placeholders of keys stand free. -/
theorem exists_substituted (tame : d.Tame store) (free : d.StandsFree store.keys text) :
    ∃ result, d.Substituted store text result := by
  induction hn : text.length using Nat.strongRecOn generalizing text with
  | ind n ih =>
    subst hn
    rcases exists_first_entry (d.table store.entries) text with
      hnone | ⟨before, old, new, after, rfl, hentry, hfirst⟩
    · exact ⟨text, .copied (lacks_iff.2 hnone)⟩
    · obtain ⟨key, form, hkey, -, hold⟩ :=
        sep.unmarked_of_mem_table tame (List.mem_of_find?_eq_some hentry)
      obtain rfl : old = (d.pair form).wrap key := hold
      obtain ⟨value, hvalue⟩ := Variables.mem_keys_iff.1 hkey
      have hbefore : d.Lacks store.keys before := by
        rw [lacks_iff]
        rintro entry he ⟨u, v, rfl⟩
        -- it would have been the first one
        obtain ⟨name, other, -, -, hname⟩ := sep.unmarked_of_mem_table tame he
        have hat := hfirst (entry.1 ++ v) (by simp [hname, wrap_ne_nil]) ⟨u, by simp⟩
        rw [List.append_assoc] at hat
        exact entryAt?_eq_none_iff.1 hat entry he (List.prefix_append _ _)
      have hafter : d.StandsFree store.keys after := by
        rintro other name hname u v huv ⟨f, run, hrun, hopen⟩
        exact free other name hname (before ++ (d.pair form).wrap key ++ u) v (by simp [huv])
          ⟨f, run, hrun, hopen.trans (List.suffix_append _ _)⟩
      have hlen := List.length_pos_iff.2 (wrap_ne_nil (d := d) form key)
      obtain ⟨result, hresult⟩ :=
        ih after.length (by simp only [List.length_append]; omega) hafter rfl
      exact ⟨_, .replaced hbefore (free form key hkey _ _ rfl) hvalue hresult⟩

/-- **One step in turn.** The first placeholder of a key becomes its value; what stands before it
stays, and what follows it is replaced on its own. -/
theorem replaceInTurn_step (tame : d.Tame store) (hbefore : d.Lacks store.keys before)
    (hopen : ¬ d.EndsOpen before) (hvalue : store.get? key = some value) :
    replaceInTurn (d.table store.entries) (before ++ (d.pair form).wrap key ++ after) =
      before ++ form.written value ++ replaceInTurn (d.table store.entries) after := by
  have hkey := sep.unmarked_of_mem_keys tame (Variables.mem_keys_iff.2 ⟨value, hvalue⟩)
  obtain ⟨first, rest, hsplit, hfirst⟩ := sep.table_split form tame hvalue
  rw [lacks_iff, hsplit] at hbefore
  have hentry : ∀ entry ∈ first ++ ((d.pair form).wrap key, form.written value) :: rest,
      ∃ name other, name ∈ store.keys ∧ d.Unmarked name ∧ entry.1 = (d.pair other).wrap name :=
    fun entry h => sep.unmarked_of_mem_table tame (hsplit ▸ h)
  -- the entries before its own one pass the placeholder over
  have h₁ : ∀ x, replaceInTurn first (before ++ (d.pair form).wrap key ++ x) =
      before ++ (d.pair form).wrap key ++ replaceInTurn first x := by
    intro x
    refine replaceInTurn_append_of_spares fun entry h => ?_
    have h' := List.mem_append_left (((d.pair form).wrap key, form.written value) :: rest) h
    obtain ⟨name, other, -, hword, hold⟩ := hentry entry h'
    refine ⟨by rw [hold]; exact wrap_ne_nil other name, ?_, hbefore entry h'⟩
    rw [hold]
    exact sep.spares_wrap hkey hword (hold ▸ hfirst entry h)
  have h₂ : ∀ x, replaceAll ((d.pair form).wrap key) (form.written value)
      (before ++ (d.pair form).wrap key ++ x) = before ++ form.written value ++
        replaceAll ((d.pair form).wrap key) (form.written value) x := by
    intro x
    refine replaceAll_first (wrap_ne_nil form key)
      (hbefore _ (List.mem_append_right first List.mem_cons_self)) fun u v huv => ?_
    rw [← List.append_assoc] at huv
    rcases sep.wrap_apart hkey hkey huv with h | h | ⟨h, -⟩
    · exact .inl h
    · exact .inr ((List.prefix_append _ _).trans h)
    · exact .inr (h ▸ List.prefix_rfl)
  -- those after it pass the value over
  have h₃ : ∀ x, replaceInTurn rest (before ++ form.written value ++ x) =
      before ++ form.written value ++ replaceInTurn rest x := by
    intro x
    refine replaceInTurn_append_of_spares fun entry h => ?_
    have h' : entry ∈ first ++ ((d.pair form).wrap key, form.written value) :: rest :=
      List.mem_append_right first (List.mem_cons_of_mem _ h)
    obtain ⟨name, other, hname, -, hold⟩ := hentry entry h'
    refine ⟨by rw [hold]; exact wrap_ne_nil other name, ?_, hbefore entry h'⟩
    rw [hold]
    exact sep.spares_value (tame.name name hname) (tame.unmarked_written hvalue) hopen
  rw [hsplit]
  simp only [replaceInTurn_append, replaceInTurn_cons, h₁, h₂, h₃]

/-- **One step of the scan.** It copies what stands before the first placeholder of a key, writes
the value and goes on after the placeholder. -/
theorem replaceEach_step (tame : d.Tame store) (hbefore : d.Lacks store.keys before)
    (hvalue : store.get? key = some value) :
    replaceEach (d.table store.entries) (before ++ (d.pair form).wrap key ++ after) =
      before ++ form.written value ++ replaceEach (d.table store.entries) after := by
  have hkey := sep.unmarked_of_mem_keys tame (Variables.mem_keys_iff.2 ⟨value, hvalue⟩)
  have hnone : ∀ s, s ≠ [] → s <:+ before → entryAt? (d.table store.entries)
      (s ++ ((d.pair form).wrap key ++ after)) = none := by
    rintro s hs ⟨u, rfl⟩
    rw [entryAt?_eq_none_iff]
    rintro entry hentry ⟨y, hy⟩
    obtain ⟨name, other, hname, hword, hold⟩ := sep.unmarked_of_mem_table tame hentry
    rw [hold] at hy
    have happ : u ++ s ++ (d.pair form).wrap key ++ after =
        u ++ (d.pair other).wrap name ++ y := by simp [hy]
    rcases sep.wrap_apart hkey hword happ with h | h | ⟨h, -⟩
    · exact hbefore other name hname ((List.suffix_append u _).isInfix.trans h.isInfix)
    · have := h.length_le
      have := List.length_pos_iff.2 hs
      simp only [List.length_append] at *; omega
    · exact hs (by simpa using h)
  have hat : entryAt? (d.table store.entries) ((d.pair form).wrap key ++ after) =
      some ((d.pair form).wrap key, form.written value) := by
    obtain ⟨first, rest, hsplit, hfirst⟩ := sep.table_split form tame hvalue
    refine List.find?_eq_some_iff_append.2
      ⟨by simp [List.isPrefixOf_iff_prefix], first, rest, hsplit, fun entry hentry => ?_⟩
    rw [Bool.not_eq_true', Bool.eq_false_iff, ne_eq, List.isPrefixOf_iff_prefix]
    rintro ⟨y, hy⟩
    obtain ⟨name, other, -, hword, hold⟩ :=
      sep.unmarked_of_mem_table tame (hsplit ▸ List.mem_append_left _ hentry)
    obtain ⟨rfl, rfl⟩ := sep.wrap_inj hword hkey (hold ▸ hy)
    exact hfirst entry hentry hold
  rw [List.append_assoc, replaceEach_append hnone,
    replaceEach_of_entryAt? (wrap_ne_nil form key) hat, List.append_assoc]

/-- **Replacing in turn gives what the template becomes.** -/
theorem replaceInTurn_eq (tame : d.Tame store) (h : d.Substituted store text result) :
    replaceInTurn (d.table store.entries) text = result := by
  induction h with
  | copied hlacks => exact replaceInTurn_of_not_infix (lacks_iff.1 hlacks)
  | replaced hbefore hopen hvalue _ ih =>
    rw [sep.replaceInTurn_step tame hbefore hopen hvalue, ih]

/-- **Replacing in one go gives what the template becomes.** -/
theorem replaceEach_eq (tame : d.Tame store) (h : d.Substituted store text result) :
    replaceEach (d.table store.entries) text = result := by
  induction h with
  | @copied text hlacks =>
    have hnone : ∀ s, s ≠ [] → s <:+ text → entryAt? (d.table store.entries) (s ++ []) = none := by
      intro s _ hs
      rw [List.append_nil, entryAt?_eq_none_iff]
      exact fun entry hentry hpre => lacks_iff.1 hlacks entry hentry (hpre.isInfix.trans hs.isInfix)
    simpa using replaceEach_append hnone
  | replaced hbefore _ hvalue _ ih => rw [sep.replaceEach_step tame hbefore hvalue, ih]

end WellSeparated

/-- Stores with the same values make the same of a template. -/
theorem Substituted.of_get?_eq {other : Variables} (hsame : ∀ key, other.get? key = store.get? key)
    (h : d.Substituted store text result) : d.Substituted other text result := by
  have hkeys : ∀ key, key ∈ other.keys ↔ key ∈ store.keys := by
    intro key
    rw [Variables.mem_keys_iff, Variables.mem_keys_iff, hsame]
  induction h with
  | copied hlacks => exact .copied fun form key hkey => hlacks form key ((hkeys key).1 hkey)
  | replaced hbefore hopen hvalue _ ih =>
    exact .replaced (fun form key hkey => hbefore form key ((hkeys key).1 hkey)) hopen
      ((hsame _).trans hvalue) ih

theorem Tame.of_get?_eq {other : Variables} (hsame : ∀ key, other.get? key = store.get? key)
    (tame : d.Tame store) : d.Tame other where
  name key hkey := tame.name key (by
    rw [Variables.mem_keys_iff] at hkey ⊢
    rwa [← hsame])
  ne_nil key value h := tame.ne_nil key value (by rwa [← hsame])
  unmarked key value h := tame.unmarked key value (by rwa [← hsame])

/-- **Rendering is one substitution.** It gives what a single scan of the template gives, which puts
the value in HTML for each encoded placeholder of a key, the value for each plain one, and copies
all else. So stores with the same values, in whatever order, render a template alike. -/
theorem render_eq_replaceEach (sep : d.WellSeparated) (tame : d.Tame store) {template : Text}
    (free : d.StandsFree store.keys template) :
    d.render store template = replaceEach (d.table store.entries) template ∧
      ∀ other : Variables, (∀ key, other.get? key = store.get? key) →
        d.render other template = d.render store template := by
  obtain ⟨result, h⟩ := sep.exists_substituted tame free
  have hresult : d.render store template = result := by
    rw [render_eq_replaceInTurn, sep.replaceInTurn_eq tame h]
  refine ⟨by rw [hresult, sep.replaceEach_eq tame h], fun other hsame => ?_⟩
  rw [hresult, render_eq_replaceInTurn,
    sep.replaceInTurn_eq (tame.of_get?_eq hsame) (h.of_get?_eq hsame)]

/-- Two placeholders of keys, one of them beside a placeholder without one. -/
theorem render_eq_replaceEach_standard :
    let store : Variables := ⟨[(['A'], ['x', '<']), (['B'], ['1'])]⟩
    let template := standard.encoded.wrap ['A'] ++ standard.plain.wrap ['C'] ++
      standard.plain.wrap ['B']
    standard.WellSeparated ∧ standard.Tame store ∧ standard.StandsFree store.keys template ∧
      standard.render store template = replaceEach (standard.table store.entries) template ∧
      ∀ other : Variables, (∀ key, other.get? key = store.get? key) →
        standard.render other template = standard.render store template :=
  ⟨standard_wellSeparated, by decide, by decide,
    render_eq_replaceEach standard_wellSeparated (by decide) (by decide)⟩

end Delimiters

end Stencil
