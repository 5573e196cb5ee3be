import Stencil.Proofs.CleanTexts
import Stencil.Proofs.LineByLine

/-!
# Keys that are no names

A variable file may define a key that is no name. The search never reads such a key, but rendering
replaces its placeholders like all others, wherever they stand in the text as its turn comes.

* `Variables.named`: the variables that have names for keys.
* `Delimiters.Idle`: no placeholder of another key stands in the text as its turn comes.
* `Delimiters.Idle.renderEntries_eq`: then the other keys do not matter.
* `Delimiters.exists_lt_length_render`: otherwise one of them can make the text longer than any
  bound.
* `Delimiters.not_render_named`: keys that are no names can matter.
* `Delimiters.render_named_iff`: **they do not matter, whatever their values are, exactly if none of
  their placeholders comes up.**
-/

namespace Stencil

namespace Text

variable {old new text before piece after : Text} {c : Char} {n : Nat}

/-- What is put in for a text that occurs is in the result. -/
theorem infix_replaceAll (hold : old ≠ []) (hin : old <:+: text) :
    new <:+: replaceAll old new text := by
  induction text using replaceAll_induction hold with
  | nil => exact absurd (List.infix_nil.1 hin) hold
  | found rest ih =>
    rw [replaceAll_of_isPrefix hold]
    exact (List.prefix_append new _).isInfix
  | passed c rest hnot ih =>
    have hrest := ih ((List.infix_cons_iff.1 hin).resolve_left hnot)
    rw [replaceAll_of_not_isPrefix hnot]
    exact hrest.trans (List.suffix_cons c _).isInfix

/-- The characters of a text in the middle of another one. -/
theorem getElem?_middle {i : Nat} (hi : i < piece.length) :
    (before ++ piece ++ after)[before.length + i]? = piece[i]? := by
  rw [List.append_assoc, List.getElem?_append_right (by omega), Nat.add_sub_cancel_left,
    List.getElem?_append_left hi]

/-- **A run of a character is not touched** by a text that is no longer, if this neither begins nor
ends with the character. -/
theorem spares_replicate (hold : old ≠ []) (hfirst : c ∉ old.head?) (hlast : c ∉ old.getLast?)
    (hlength : old.length ≤ n) (before : Text) : Spares old before (List.replicate n c) := by
  intro x y after hxy
  have hpos := List.length_pos_iff.2 hold
  have hrun : ∀ i < n, (x ++ old ++ y)[before.length + i]? = some c := by
    intro i hi
    rw [← hxy, getElem?_middle (by rwa [List.length_replicate]), List.getElem?_replicate, if_pos hi]
  have hrest : x ++ old <+: before ++ List.replicate n c ++ after := ⟨y, hxy.symm⟩
  have hbefore : before <+: before ++ List.replicate n c ++ after := ⟨_, (List.append_assoc ..).symm⟩
  have hthrough : before ++ List.replicate n c <+: before ++ List.replicate n c ++ after := ⟨after, rfl⟩
  have hx : x <+: before ++ List.replicate n c ++ after := (List.prefix_append x old).trans hrest
  by_cases hends : x.length + old.length ≤ before.length
  · refine .inl (List.prefix_of_prefix_length_le hrest hbefore ?_)
    rw [List.length_append]
    exact hends
  by_cases hstarts : before.length + n ≤ x.length
  · refine .inr (List.prefix_of_prefix_length_le hthrough hx ?_)
    rw [List.length_append, List.length_replicate]
    exact hstarts
  exfalso
  by_cases hinside : before.length ≤ x.length
  · -- its first character is in the run
    have hfound := hrun (x.length - before.length) (by omega)
    have hat : before.length + (x.length - before.length) = x.length + 0 := by omega
    rw [hat, getElem?_middle hpos, ← List.head?_eq_getElem?] at hfound
    exact hfirst hfound
  · -- it is too short to reach over the run, so its last character is in it
    have hfound := hrun (x.length + (old.length - 1) - before.length) (by omega)
    have hat : before.length + (x.length + (old.length - 1) - before.length) =
        x.length + (old.length - 1) := by omega
    rw [hat, getElem?_middle (by omega), ← List.getLast?_eq_getElem?] at hfound
    exact hlast hfound

/-- A run of a character that is not touched stays. -/
theorem replicate_infix_replaceAll (hold : old ≠ []) (hfirst : c ∉ old.head?)
    (hlast : c ∉ old.getLast?) (hlength : old.length ≤ n) (hin : List.replicate n c <:+: text) :
    List.replicate n c <:+: replaceAll old new text := by
  obtain ⟨before, after, rfl⟩ := hin
  rw [replaceAll_of_spares hold (spares_replicate hold hfirst hlast hlength before)]
  exact ⟨_, _, rfl⟩

end Text

variable {key value : Text}

/-- A run of a letter can be the value of every key that a file can define. -/
theorem IsDefinition.replicate (h : IsDefinition key value) (n : Nat) :
    IsDefinition key (List.replicate (n + 1) 'x') :=
  { h with
    value_ne_nil := by simp
    value_no_feed := by simp
    value_end := by
      intro c hc
      rw [List.eq_of_mem_replicate (List.mem_of_mem_getLast? hc)]
      decide }

namespace Variables

variable {store : Variables} {first rest : List (Text × Text)}

/-- **The variables that have names for keys.** -/
def named (store : Variables) : Variables := ⟨store.entries.filter fun entry => isName entry.1⟩

/-- A definition of a key that is no name does not change the variables with names. -/
theorem named_define (hno : isName key = false) (value : Text) :
    (store.define key value).named = store.named := by
  obtain ⟨entries⟩ := store
  refine congrArg Variables.mk ?_
  change (putKey key value entries).filter _ = entries.filter _
  induction entries with
  | nil => simp [putKey, hno]
  | cons entry entries ih =>
    obtain ⟨k, v⟩ := entry
    unfold putKey
    split
    · next hkey =>
      rw [List.filter_cons, List.filter_cons, beq_iff_eq.1 hkey]
      simp [hno]
    · rw [List.filter_cons, List.filter_cons, ih]

/-- A key that is in the store keeps its place when it is defined again. -/
theorem entries_define (hnodup : store.keys.Nodup)
    (hsplit : store.entries = first ++ (key, value) :: rest) (new : Text) :
    (store.define key new).entries = first ++ (key, new) :: rest := by
  have hfirst : key ∉ first.map Prod.fst := by
    unfold keys at hnodup
    rw [hsplit, List.map_append, List.map_cons, List.nodup_append] at hnodup
    intro hbefore
    exact hnodup.2.2 key hbefore key List.mem_cons_self rfl
  have hput := putKey_append_cons hfirst value new rest
  rwa [← hsplit] at hput

end Variables

namespace Delimiters

open Text

variable {d : Delimiters} {store : Variables} {entries other first rest : List (Text × Text)}
  {key value text run : Text} {form : Form} {c : Char} {n : Nat}

/-- **The keys that are no names stay idle**: the variables with names are put into the text, entry
after entry, and no placeholder of another key stands in it as its turn comes. -/
def Idle (d : Delimiters) : List (Text × Text) → Text → Prop
  | [], _ => True
  | (key, value) :: rest, text =>
    if isName key then d.Idle rest (d.substitute key value text)
    else d.Lacks [key] text ∧ d.Idle rest text

instance (keys : List Text) (text : Text) : Decidable (d.Lacks keys text) :=
  inferInstanceAs (Decidable (∀ form, ∀ key ∈ keys, ¬ (d.pair form).wrap key <:+: text))

instance decidableIdle (d : Delimiters) :
    ∀ entries text, Decidable (d.Idle entries text)
  | [], _ => inferInstanceAs (Decidable True)
  | (key, value) :: rest, text =>
    have := decidableIdle d rest (d.substitute key value text)
    have := decidableIdle d rest text
    inferInstanceAs (Decidable (if isName key then d.Idle rest (d.substitute key value text)
      else d.Lacks [key] text ∧ d.Idle rest text))

/-- Nothing is put in for a key without placeholders. -/
theorem substitute_of_lacks (h : d.Lacks [key] text) (value : Text) :
    d.substitute key value text = text := by
  have hnone : ∀ form, ¬ (d.pair form).wrap key <:+: text :=
    fun form => h form key (List.mem_singleton_self key)
  rw [substitute_eq, replaceAll_of_not_isInfix (hnone .encoded),
    replaceAll_of_not_isInfix (hnone .plain)]

/-- **Idle keys do not matter.** -/
theorem Idle.renderEntries_eq (h : d.Idle entries text) :
    d.renderEntries entries text =
      d.renderEntries (entries.filter fun entry => isName entry.1) text := by
  induction entries generalizing text with
  | nil => rfl
  | cons entry entries ih =>
    obtain ⟨key, value⟩ := entry
    unfold Idle at h
    rw [renderEntries_cons, List.filter_cons]
    split at h
    · next hname =>
      rw [if_pos hname, renderEntries_cons, ih h]
    · next hname =>
      rw [if_neg hname, substitute_of_lacks h.1, ih h.2]

/-- Whether the keys that are no names stay idle does not depend on their values. -/
theorem Idle.congr (hkeys : other.map Prod.fst = entries.map Prod.fst)
    (hnamed : (other.filter fun entry => isName entry.1) = entries.filter fun entry => isName entry.1)
    (h : d.Idle entries text) : d.Idle other text := by
  induction entries generalizing other text with
  | nil =>
    rw [List.map_nil, List.map_eq_nil_iff] at hkeys
    rw [hkeys]
    trivial
  | cons entry entries ih =>
    cases other with
    | nil => cases hkeys
    | cons entry' other =>
      obtain ⟨key, value⟩ := entry
      obtain ⟨key', value'⟩ := entry'
      rw [List.map_cons, List.map_cons, List.cons.injEq] at hkeys
      obtain ⟨rfl, hkeys⟩ := hkeys
      unfold Idle at h ⊢
      rw [List.filter_cons, List.filter_cons] at hnamed
      dsimp only at hnamed
      split at h
      · next hname =>
        rw [if_pos hname, if_pos hname, List.cons.injEq] at hnamed
        obtain ⟨hvalue, hnamed⟩ := hnamed
        cases hvalue
        rw [if_pos hname]
        exact ih hkeys hnamed h
      · next hname =>
        rw [if_neg hname, if_neg hname] at hnamed
        rw [if_neg hname]
        exact ⟨h.1, ih hkeys hnamed h.2⟩

/-- **The first key that does not stay idle**: a placeholder of it stands in the text as its turn
comes. -/
theorem exists_of_not_idle (h : ¬ d.Idle entries text) :
    ∃ first key value rest, entries = first ++ (key, value) :: rest ∧ isName key = false ∧
      ¬ d.Lacks [key] (d.renderEntries first text) := by
  induction entries generalizing text with
  | nil => exact absurd trivial h
  | cons entry entries ih =>
    obtain ⟨key, value⟩ := entry
    unfold Idle at h
    split at h
    · obtain ⟨first, other, found, rest, rfl, hno, hstands⟩ := ih h
      exact ⟨(key, value) :: first, other, found, rest, rfl, hno, hstands⟩
    · next hname =>
      by_cases hlacks : d.Lacks [key] text
      · obtain ⟨first, other, found, rest, rfl, hno, hstands⟩ := ih fun hidle => h ⟨hlacks, hidle⟩
        refine ⟨(key, value) :: first, other, found, rest, rfl, hno, ?_⟩
        rw [renderEntries_cons, substitute_of_lacks hlacks]
        exact hstands
      · exact ⟨[], key, value, entries, rfl, by simpa using hname, hlacks⟩

/-- No placeholder begins or ends with a character that is in no delimiter. -/
theorem not_mem_ends_wrap (hc : c ∉ d.marks) (form : Form) (key : Text) :
    c ∉ ((d.pair form).wrap key).head? ∧ c ∉ ((d.pair form).wrap key).getLast? := by
  obtain ⟨hopening, hclosing⟩ := d.proper form
  constructor
  · intro hfirst
    rw [Pair.wrap, List.append_assoc, List.head?_append_of_ne_nil _ hopening] at hfirst
    exact hc (d.mem_marks_iff.2 ⟨form, .inl (List.mem_of_mem_head? hfirst)⟩)
  · intro hlast
    rw [Pair.wrap, List.getLast?_append_of_ne_nil _ hclosing] at hlast
    exact hc (d.mem_marks_iff.2 ⟨form, .inr (List.mem_of_mem_getLast? hlast)⟩)

/-- A placeholder is not longer than all delimiters and its key. -/
theorem length_wrap_le (form : Form) (key : Text) :
    ((d.pair form).wrap key).length ≤ d.marks.length + key.length := by
  cases form <;> simp only [Pair.wrap, pair, marks, List.length_append] <;> omega

section LongRun

variable (hc : c ∉ d.marks)
include hc

/-- A run that is at least as long as the placeholders of a key stays when its value is put in. -/
theorem replicate_infix_substitute (hlength : ∀ form, ((d.pair form).wrap key).length ≤ n)
    (hin : List.replicate n c <:+: text) :
    List.replicate n c <:+: d.substitute key value text := by
  have hstays : ∀ form new {text : Text}, List.replicate n c <:+: text →
      List.replicate n c <:+: replaceAll ((d.pair form).wrap key) new text := by
    intro form new text hin
    obtain ⟨hfirst, hlast⟩ := not_mem_ends_wrap hc form key
    exact replicate_infix_replaceAll (wrap_ne_nil form key) hfirst hlast (hlength form) hin
  rw [substitute_eq]
  exact hstays .plain value (hstays .encoded (Html.escape value) hin)

/-- **A run that no placeholder is longer than stays.** -/
theorem replicate_infix_renderEntries
    (hlength : ∀ entry ∈ entries, ∀ form, ((d.pair form).wrap entry.1).length ≤ n)
    (hin : List.replicate n c <:+: text) :
    List.replicate n c <:+: d.renderEntries entries text := by
  induction entries generalizing text with
  | nil => exact hin
  | cons entry entries ih =>
    obtain ⟨key, value⟩ := entry
    rw [renderEntries_cons]
    refine ih (fun entry hentry => hlength entry (List.mem_cons_of_mem _ hentry)) ?_
    exact replicate_infix_substitute hc (hlength (key, value) List.mem_cons_self) hin

/-- A run comes into the text as the value of a key of which a placeholder stands there. -/
theorem replicate_infix_of_not_lacks (hplain : Html.needsEscape c = false)
    (hlength : ∀ form, ((d.pair form).wrap key).length ≤ n) (hstands : ¬ d.Lacks [key] text) :
    List.replicate n c <:+: d.substitute key (List.replicate n c) text := by
  have hescape : Html.escape (List.replicate n c) = List.replicate n c := by
    refine Html.escape_eq_self fun x hx => ?_
    rw [List.eq_of_mem_replicate hx]
    exact hplain
  rw [substitute_eq, hescape]
  by_cases hencoded : (d.pair .encoded).wrap key <:+: text
  · obtain ⟨hfirst, hlast⟩ := not_mem_ends_wrap hc .plain key
    exact replicate_infix_replaceAll (wrap_ne_nil .plain key) hfirst hlast (hlength .plain)
      (infix_replaceAll (wrap_ne_nil .encoded key) hencoded)
  · rw [replaceAll_of_not_isInfix hencoded]
    refine infix_replaceAll (wrap_ne_nil .plain key) ?_
    by_contra hplain
    refine hstands fun form other hother => ?_
    rw [List.mem_singleton.1 hother]
    cases form with
    | plain => exact hplain
    | encoded => exact hencoded

/-- **A key of which a placeholder comes up can make the text as long as one likes.** -/
theorem exists_lt_length_render (hplain : Html.needsEscape c = false) (hnodup : store.keys.Nodup)
    (hsplit : store.entries = first ++ (key, value) :: rest)
    (hstands : ¬ d.Lacks [key] (d.renderEntries first text)) (bound : Nat) :
    ∃ n, bound < (d.render (store.define key (List.replicate (n + 1) c)) text).length := by
  -- the value is a run that is longer than all placeholders
  let n := d.marks.length + store.keys.flatten.length + bound
  refine ⟨n, ?_⟩
  have hlength : ∀ entry ∈ store.entries, ∀ form, ((d.pair form).wrap entry.1).length ≤ n + 1 := by
    intro entry hentry form
    have hwrap := length_wrap_le (d := d) form entry.1
    have hkey : entry.1 ∈ store.keys := List.mem_map_of_mem hentry
    have hflat := (List.sublist_flatten_of_mem hkey).length_le
    omega
  have hkey : (key, value) ∈ store.entries := by
    rw [hsplit]
    simp
  have hrest : ∀ entry ∈ rest, entry ∈ store.entries := by
    intro entry hentry
    rw [hsplit]
    simp [hentry]
  have hwrap : ∀ form, ((d.pair form).wrap key).length ≤ n + 1 := hlength (key, value) hkey
  have hcomes := replicate_infix_of_not_lacks hc hplain hwrap hstands
  have hstays :=
    replicate_infix_renderEntries hc (fun entry hentry => hlength entry (hrest entry hentry))
    hcomes
  have hrun := hstays.length_le
  rw [List.length_replicate] at hrun
  rw [render, Variables.entries_define hnodup hsplit, renderEntries_append, renderEntries_cons]
  omega

end LongRun

/-- **A key that is no name can matter.** The plain placeholder of one can be written like the
encoded placeholder of a name, and it is replaced by the value as it is. -/
theorem not_render_named :
    ¬ ∀ content store template, Variables.parse content = .ok store →
      standard.render store template = standard.render store.named template := by
  intro h
  have hparse : Variables.parse ['|', '|', 'A', '|', '|', '=', '<', '\n', 'A', '=', '<', '\n'] =
      .ok ⟨[(['|', '|', 'A', '|', '|'], ['<']), (['A'], ['<'])]⟩ := rfl
  have hsame := h _ _ (standard.encoded.wrap ['A']) hparse
  exact absurd hsame (by decide +kernel)

/-- **Keys that are no names do not matter, whatever their values are, exactly if they stay idle**:
a file is rendered like its variables with names alone, and so is every other file with the same
keys and the same variables with names, if and only if no placeholder of another key stands in the
text as its turn comes. -/
theorem render_named_iff {content : Text} (hparse : Variables.parse content = .ok store)
    (template : Text) :
    (∀ second other, Variables.parse second = .ok other → other.keys = store.keys →
      other.named = store.named →
        standard.render other template = standard.render store.named template) ↔
      standard.Idle store.entries template := by
  constructor
  · intro hsame
    by_contra hidle
    obtain ⟨first, key, value, rest, hsplit, hno, hstands⟩ := exists_of_not_idle hidle
    have hprintable := Variables.printable_of_parse hparse
    have hmem : (key, value) ∈ store.entries := by
      rw [hsplit]
      simp
    have hkey : key ∈ store.keys := List.mem_map_of_mem hmem
    -- with a long value for that key the rendered text is too long
    obtain ⟨n, hlong⟩ := exists_lt_length_render (d := standard) (c := 'x') (by decide) (by decide)
      hprintable.nodup hsplit hstands (standard.render store.named template).length
    have hdefinition := (hprintable.each key value hmem).replicate n
    have hother := Variables.parse_print (hprintable.define hdefinition)
    have hkeys : (store.define key (List.replicate (n + 1) 'x')).keys = store.keys := by
      rw [Variables.keys_define, if_pos hkey]
    have hrendered := hsame _ _ hother hkeys (Variables.named_define hno _)
    rw [← hrendered] at hlong
    exact absurd hlong (Nat.lt_irrefl _)
  · intro hidle second other _ hkeys hnamed
    have hentries := congrArg Variables.entries hnamed
    have hother : standard.Idle other.entries template := hidle.congr hkeys hentries
    have hsame : standard.render other template = standard.render other.named template :=
      hother.renderEntries_eq
    rw [hsame, hnamed]

/-- A key that looks like the encoded placeholder of a name does not matter in a template with the
plain one, whatever its value is; in a template with the encoded one it does. -/
theorem render_named_iff_bars :
    let content : Text := ['|', '|', 'A', '|', '|', '=', '<', '\n', 'A', '=', '1', '\n']
    let store : Variables := ⟨[(['|', '|', 'A', '|', '|'], ['<']), (['A'], ['1'])]⟩
    let second : Text := ['|', '|', 'A', '|', '|', '=', '&', '\n', 'A', '=', '1', '\n']
    let other : Variables := ⟨[(['|', '|', 'A', '|', '|'], ['&']), (['A'], ['1'])]⟩
    Variables.parse content = .ok store ∧ Variables.parse second = .ok other ∧
      standard.render other (standard.plain.wrap ['A']) =
        standard.render store.named (standard.plain.wrap ['A']) ∧
      ∃ second other, Variables.parse second = .ok other ∧ other.named = store.named ∧
        standard.render other (standard.encoded.wrap ['A']) ≠
          standard.render store.named (standard.encoded.wrap ['A']) := by
  intro content store second other
  have hparse : Variables.parse content = .ok store := rfl
  have hsecond : Variables.parse second = .ok other := rfl
  have hidle := (render_named_iff hparse (standard.plain.wrap ['A'])).2 (by decide +kernel)
  refine ⟨hparse, hsecond, hidle second other hsecond rfl rfl, ?_⟩
  by_contra hnone
  push Not at hnone
  have hbusy := (render_named_iff hparse (standard.encoded.wrap ['A'])).1
    fun second other hsecond _ hnamed => hnone second other hsecond hnamed
  exact absurd hbusy (by decide +kernel)

end Delimiters

end Stencil
