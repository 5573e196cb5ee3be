import Stencil.Proofs.Search

/-!
# Placeholders in a scan

A scan of a text goes from the left: it stops at the first place where a placeholder stands, takes
the one with the longest name there, and goes on after its end. Nothing is said of how a name is
found, so the closing text may begin with characters of names, and the openings and closings may
share characters.

* `Pair.Scan`: **a scan**, with the place of every placeholder.
* `Scan.unique`: a text has no other scan.
* `Scan.apart`: the placeholders of a scan do not overlap.
* `Delimiters.tokens_scan`: **the placeholders that are read are those of the scan.**
-/

namespace Stencil

/-- A placeholder with the position in a text at which it starts. -/
structure Found where
  start : Nat
  token : Token
  deriving DecidableEq

/-- The position after the placeholder. -/
def Found.stop (found : Found) : Nat := found.start + found.token.full.length

namespace Pair

variable {pair : Pair} {text rest name other : Text} {start position : Nat}
  {found later : List Found}

/-- A placeholder with the given name stands at the position of the text. -/
def StandsAt (pair : Pair) (text : Text) (position : Nat) (name : Text) : Prop :=
  isName name = true ∧ pair.wrap name <+: text.drop position

/-- **A scan** of the text from a position on. -/
inductive Scan (pair : Pair) (text : Text) : Nat → List Found → Prop
  | done {start : Nat}
      (nothing : ∀ position, start ≤ position → ∀ name, ¬ pair.StandsAt text position name) :
      Scan pair text start []
  | next {start position : Nat} {name : Text} {later : List Found}
      (onward : start ≤ position)
      (first : ∀ earlier, start ≤ earlier → earlier < position →
        ∀ name, ¬ pair.StandsAt text earlier name)
      (stands : pair.StandsAt text position name)
      (longest : ∀ other, pair.StandsAt text position other → other.length ≤ name.length)
      (rest : Scan pair text (position + (pair.wrap name).length) later) :
      Scan pair text start (⟨position, ⟨pair.wrap name, name⟩⟩ :: later)

/-- Names of one length at one position are the same. -/
theorem StandsAt.name_eq (h : pair.StandsAt text position name)
    (h' : pair.StandsAt text position other) (hlength : name.length = other.length) :
    name = other := by
  have hwrap : pair.wrap name = pair.wrap other := by
    have hle : (pair.wrap name).length = (pair.wrap other).length := by
      simp only [wrap, List.length_append]; omega
    exact (List.prefix_of_prefix_length_le h.2 h'.2 (by omega)).eq_of_length hle
  simpa [wrap] using hwrap

/-- A scan may start earlier where nothing stands. -/
theorem Scan.widen (hnone : ∀ name, ¬ pair.StandsAt text start name)
    (h : pair.Scan text (start + 1) found) : pair.Scan text start found := by
  -- from `start` on means at `start`, or from the next position on
  have hsplit : ∀ {earlier}, start ≤ earlier → earlier = start ∨ start + 1 ≤ earlier := by
    intro earlier hle
    omega
  cases h with
  | done nothing =>
    refine .done fun position hle name => ?_
    rcases hsplit hle with rfl | hle
    · exact hnone name
    · exact nothing position hle name
  | next onward first stands longest rest =>
    refine .next (by omega) (fun earlier hle hlt name => ?_) stands longest rest
    rcases hsplit hle with rfl | hle
    · exact hnone name
    · exact first earlier hle hlt name

/-- **What is read is a scan**: the placeholders of what is left of a text from a position on are
those of a scan from there. -/
theorem exists_scan (pair : Pair) {text rest : Text} {start : Nat} (hrest : text.drop start = rest) :
    ∃ found, pair.Scan text start found ∧ found.map Found.token = pair.tokens rest := by
  induction rest using names_induction pair generalizing start with
  | nil =>
    refine ⟨[], .done fun position hle name hstands => ?_, by simp [tokens]⟩
    have hend : text.drop position = [] := by
      rw [List.drop_eq_nil_iff] at hrest ⊢; omega
    have hwrap := hstands.2
    rw [hend, List.prefix_nil] at hwrap
    exact pair.wrap_ne_nil_of_isName hstands.1 hwrap
  | found name after hat hname ih =>
    have hafter : text.drop (start + (pair.wrap name).length) = after := by
      rw [← List.drop_drop, hrest, List.drop_left]
    obtain ⟨later, hlater, htokens⟩ := ih hafter
    refine ⟨⟨start, ⟨pair.wrap name, name⟩⟩ :: later, .next le_rfl ?_ ?_ ?_ hlater, ?_⟩
    · intro earlier hle hlt
      omega
    · exact ⟨hname, hrest ▸ List.prefix_append _ _⟩
    · -- the name that is read is at least as long as any that stands there
      intro other hother
      obtain ⟨longest, hlongest, hprefix⟩ := exists_nameAt? hother.1 hother.2
      rw [hrest, hat] at hlongest
      exact Option.some.inj hlongest ▸ hprefix.length_le
    · rw [List.map_cons, htokens, tokens, tokens, names_of_nameAt? hat, List.map_cons]
  | passed c rest hat ih =>
    have hnext : text.drop (start + 1) = rest := by
      rw [← List.drop_drop, hrest, List.drop_one, List.tail_cons]
    obtain ⟨found, hfound, htokens⟩ := ih hnext
    refine ⟨found, hfound.widen fun name hstands => ?_, ?_⟩
    · obtain ⟨longest, hlongest, -⟩ := exists_nameAt? hstands.1 hstands.2
      rw [hrest, hat] at hlongest
      cases hlongest
    · rw [htokens, tokens, tokens, names_of_none hat]

/-- **A text has one scan.** -/
theorem Scan.unique {other : List Found} (h : pair.Scan text start found)
    (h' : pair.Scan text start other) : found = other := by
  induction h generalizing other with
  | done nothing =>
    cases h' with
    | done => rfl
    | next onward _ stands => exact absurd stands (nothing _ onward _)
  | @next start position name later onward first stands longest rest ih =>
    cases h' with
    | done nothing => exact absurd stands (nothing _ onward _)
    | @next _ position' name' later' onward' first' stands' longest' rest' =>
      have hposition : position = position' := by
        rcases Nat.lt_trichotomy position position' with hlt | heq | hlt
        · exact absurd stands (first' _ onward hlt _)
        · exact heq
        · exact absurd stands' (first _ onward' hlt _)
      subst hposition
      have hname : name = name' := by
        have hle := longest _ stands'
        have hge := longest' _ stands
        exact stands.name_eq stands' (by omega)
      subst hname
      rw [ih rest']

/-- A scan finds placeholders where they stand, and none before its start. -/
theorem Scan.stands (h : pair.Scan text start found) : ∀ place ∈ found,
    start ≤ place.start ∧ place.token.full = pair.wrap place.token.name ∧
      pair.StandsAt text place.start place.token.name := by
  induction h with
  | done => simp
  | next onward first stands longest rest ih =>
    intro place hplace
    rcases List.mem_cons.1 hplace with rfl | hplace
    · exact ⟨onward, rfl, stands⟩
    · obtain ⟨hle, hfull, hstands⟩ := ih place hplace
      exact ⟨by omega, hfull, hstands⟩

/-- **The placeholders of a scan do not overlap**, and go from left to right. -/
theorem Scan.apart (h : pair.Scan text start found) :
    found.Pairwise fun place next => place.start < next.start ∧ place.stop ≤ next.start := by
  induction h with
  | done => exact List.Pairwise.nil
  | next onward first stands longest rest ih =>
    refine List.pairwise_cons.2 ⟨fun place hplace => ?_, ih⟩
    have hpos := List.length_pos_iff.2 (pair.wrap_ne_nil_of_isName stands.1)
    have hle := (rest.stands place hplace).1
    simp only [Found.stop]
    omega

end Pair

/-- **The placeholders that are read are those of the scan**, whatever the delimiters and the text
are. The text has one scan; every placeholder in it is a valid name between the texts of the pair,
and they do not overlap. -/
theorem Delimiters.tokens_scan (d : Delimiters) (form : Form) (text : Text) :
    ∃ found, (d.pair form).Scan text 0 found ∧
      (∀ other, (d.pair form).Scan text 0 other → other = found) ∧
      d.tokens form text = found.map Found.token ∧
      (∀ place ∈ found, place.token.full = (d.pair form).wrap place.token.name ∧
        (d.pair form).StandsAt text place.start place.token.name) ∧
      found.Pairwise fun place next => place.start < next.start ∧ place.stop ≤ next.start := by
  have hstart : text.drop 0 = text := List.drop_zero
  obtain ⟨found, hscan, htokens⟩ := (d.pair form).exists_scan hstart
  refine ⟨found, hscan, fun other hother => hother.unique hscan, htokens.symm, ?_, hscan.apart⟩
  intro place hplace
  exact (hscan.stands place hplace).2

-- The closing text is a name itself, so the longest name that it closes is looked for.
example : (Pair.mk ['<'] ['x']).tokens "<axxb<x<yx".toList =
    [⟨"<axx".toList, "ax".toList⟩, ⟨"<yx".toList, "y".toList⟩] := by decide +kernel

end Stencil
