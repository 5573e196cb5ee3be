import Mathlib.Tactic.SplitIfs
import Stencil.Workspace.Storage

/-!
# How bytes are read as text

Bytes need not be UTF-8 throughout. What is part of no character is taken in pieces, each as long as
the longest beginning of a character that is found there, and each piece is read as U+FFFD. Of what
is read from a file, one byte order mark at the start is no part of the text.

* `Utf8.Reads`: how bytes are read, in terms of the characters that they are made of.
* `Utf8.isBeginning_two_iff`, `Utf8.isBeginning_three_iff`: which bytes begin a character.
* `Utf8.isBroken_brokenLength`, `Utf8.IsBroken.unique`: the piece that is taken is the only one to
  take.
* `Utf8.reads_iff`: **all bytes are read so, and in one way.**
* `Storage.Decodes`, `Storage.decodes_iff`: the text of a file.
-/

namespace Stencil

namespace Utf8

/-- The bytes start with a character. -/
def StartsCharacter (bytes : Bytes) : Prop := ∃ c, String.utf8EncodeChar c <+: bytes

/-- The bytes are the beginning of a character, but not all of it. -/
def IsBeginning (piece : Bytes) : Prop :=
  piece ≠ [] ∧ ∃ c, piece <+: String.utf8EncodeChar c ∧ piece ≠ String.utf8EncodeChar c

/-- A broken piece, with the bytes after it. There is no character at its start; it is a beginning
of one, as long as there is one, or a single byte. -/
structure IsBroken (piece after : Bytes) : Prop where
  noCharacter : ¬ StartsCharacter (piece ++ after)
  begins : piece.length = 1 ∨ IsBeginning piece
  longest : ∀ longer, longer <+: piece ++ after → IsBeginning longer → longer.length ≤ piece.length

/-- **How bytes are read**: character by character, with U+FFFD for every broken piece. -/
inductive Reads : Bytes → Text → Prop
  | nil : Reads [] []
  | character (c : Char) {after : Bytes} {text : Text} (h : Reads after text) :
      Reads (String.utf8EncodeChar c ++ after) (c :: text)
  | broken {piece after : Bytes} {text : Text} (hbroken : IsBroken piece after)
      (h : Reads after text) : Reads (piece ++ after) ('\uFFFD' :: text)

theorem leading?_eq_none_iff {bytes : Bytes} :
    leading? bytes = none ↔ ¬ StartsCharacter bytes := by
  constructor
  · rintro hnone ⟨c, rest, rfl⟩
    rw [leading?_encode_cons] at hnone
    cases hnone
  · intro h
    cases hleading : leading? bytes with
    | none => rfl
    | some c =>
      obtain ⟨rest, hrest⟩ := exists_of_leading? hleading
      exact absurd ⟨c, rest, hrest.symm⟩ h

section Beginnings

theorem isContinuation_iff {b : UInt8} :
    isContinuation b = true ↔ 0x80 ≤ b.toNat ∧ b.toNat ≤ 0xBF := by
  simp [isContinuation, UInt8.le_iff_toNat_le]

/-- The bytes that can follow each other at the start of a character of three or four bytes. -/
theorem canFollow_iff {first second : UInt8} : canFollow first second = true ↔
    first.toNat = 0xE0 ∧ 0xA0 ≤ second.toNat ∧ second.toNat ≤ 0xBF ∨
    first.toNat = 0xED ∧ 0x80 ≤ second.toNat ∧ second.toNat ≤ 0x9F ∨
    first.toNat = 0xF0 ∧ 0x90 ≤ second.toNat ∧ second.toNat ≤ 0xBF ∨
    first.toNat = 0xF4 ∧ 0x80 ≤ second.toNat ∧ second.toNat ≤ 0x8F ∨
    0xE1 ≤ first.toNat ∧ first.toNat ≤ 0xF3 ∧ first.toNat ≠ 0xED ∧ first.toNat ≠ 0xF0 ∧
      0x80 ≤ second.toNat ∧ second.toNat ≤ 0xBF := by
  unfold canFollow
  simp only [beq_iff_eq, ← UInt8.toNat_inj, UInt8.le_iff_toNat_le, UInt8.reduceToNat]
  split_ifs <;> simp only [Bool.and_eq_true, decide_eq_true_eq, isContinuation_iff] <;> omega

variable {c : Char} {first second third fourth : UInt8} {rest : Bytes}

/-- The second byte of a character of three or four bytes can follow its first one. -/
theorem canFollow_of_encode (h : String.utf8EncodeChar c = first :: second :: third :: rest) :
    canFollow first second = true := by
  have hvalid : c.val.toNat < 0xD800 ∨ 0xDFFF < c.val.toNat ∧ c.val.toNat < 0x110000 := c.valid
  rw [canFollow_iff]
  unfold String.utf8EncodeChar at h
  generalize c.val.toNat = v at h hvalid
  dsimp only at h
  split_ifs at h
  · cases h
  · cases h
  · simp only [List.cons.injEq] at h
    obtain ⟨rfl, rfl, -⟩ := h
    simp only [UInt8.toNat_ofNat']
    omega
  · simp only [List.cons.injEq] at h
    obtain ⟨rfl, rfl, -⟩ := h
    simp only [UInt8.toNat_ofNat']
    omega

/-- A character of four bytes has a first byte of its own kind. -/
theorem isContinuation_of_encode
    (h : String.utf8EncodeChar c = first :: second :: third :: fourth :: rest) :
    0xF0 ≤ first.toNat ∧ isContinuation third = true := by
  rw [isContinuation_iff]
  unfold String.utf8EncodeChar at h
  generalize c.val.toNat = v at h
  dsimp only at h
  split_ifs at h
  · cases h
  · cases h
  · simp at h
  · simp only [List.cons.injEq] at h
    obtain ⟨rfl, rfl, rfl, -⟩ := h
    simp only [UInt8.toNat_ofNat']
    omega

/-- There is a character for every number up to the last one but the surrogates. -/
theorem exists_char {v : Nat} (h : v < 0xD800 ∨ 0xDFFF < v ∧ v < 0x110000) :
    ∃ c : Char, c.val.toNat = v := ⟨Char.ofNatAux v h, rfl⟩

/-- There is a character of three bytes for its first two. -/
theorem exists_encode_three (h : canFollow first second = true) (hfirst : first.toNat < 0xF0) :
    ∃ c third, String.utf8EncodeChar c = [first, second, third] := by
  rw [canFollow_iff] at h
  obtain ⟨c, hc⟩ := @exists_char
    ((first.toNat - 0xE0) * 4096 + (second.toNat - 0x80) * 64) (by omega)
  refine ⟨c, 0x80, ?_⟩
  unfold String.utf8EncodeChar
  rw [hc]
  dsimp only
  rw [if_neg (by omega), if_neg (by omega), if_pos (by omega)]
  simp only [List.cons.injEq, ← UInt8.toNat_inj, UInt8.toNat_ofNat', UInt8.reduceToNat, and_true]
  omega

/-- There is a character of four bytes for its first three. -/
theorem exists_encode_four (h : canFollow first second = true) (hfirst : 0xF0 ≤ first.toNat)
    (hthird : isContinuation third = true) :
    ∃ c fourth, String.utf8EncodeChar c = [first, second, third, fourth] := by
  rw [canFollow_iff] at h
  rw [isContinuation_iff] at hthird
  obtain ⟨c, hc⟩ := @exists_char ((first.toNat - 0xF0) * 262144 + (second.toNat - 0x80) * 4096 +
    (third.toNat - 0x80) * 64) (by omega)
  refine ⟨c, 0x80, ?_⟩
  unfold String.utf8EncodeChar
  rw [hc]
  dsimp only
  rw [if_neg (by omega), if_neg (by omega), if_neg (by omega)]
  simp only [List.cons.injEq, ← UInt8.toNat_inj, UInt8.toNat_ofNat', UInt8.reduceToNat, and_true]
  omega

/-- A piece that begins a character goes on with some of its bytes. -/
theorem isBeginning_iff {piece : Bytes} : IsBeginning piece ↔
    piece ≠ [] ∧ ∃ c b later, String.utf8EncodeChar c = piece ++ b :: later := by
  refine and_congr .rfl ⟨?_, ?_⟩
  · rintro ⟨c, ⟨later, hlater⟩, hne⟩
    cases later with
    | nil => exact absurd (by simpa using hlater) hne
    | cons b later => exact ⟨c, b, later, hlater.symm⟩
  · rintro ⟨c, b, later, h⟩
    refine ⟨c, ⟨b :: later, h.symm⟩, fun heq => ?_⟩
    rw [← heq] at h
    simp at h

theorem isBeginning_two_iff : IsBeginning [first, second] ↔ canFollow first second = true := by
  rw [isBeginning_iff]
  constructor
  · rintro ⟨-, c, b, later, h⟩
    exact canFollow_of_encode h
  · intro h
    by_cases hfirst : first.toNat < 0xF0
    · obtain ⟨c, third, hc⟩ := exists_encode_three h hfirst
      exact ⟨nofun, c, third, [], hc⟩
    · have hthird : isContinuation 0x80 = true := rfl
      obtain ⟨c, fourth, hc⟩ := exists_encode_four h (by omega) hthird
      exact ⟨nofun, c, 0x80, [fourth], hc⟩

theorem isBeginning_three_iff : IsBeginning [first, second, third] ↔
    canFollow first second = true ∧ 0xF0 ≤ first.toNat ∧ isContinuation third = true := by
  rw [isBeginning_iff]
  constructor
  · rintro ⟨-, c, b, later, h⟩
    exact ⟨canFollow_of_encode h, isContinuation_of_encode h⟩
  · rintro ⟨h, hfirst, hthird⟩
    obtain ⟨c, fourth, hc⟩ := exists_encode_four h hfirst hthird
    exact ⟨nofun, c, fourth, [], hc⟩

/-- A beginning has at most three bytes. -/
theorem IsBeginning.length_le {piece : Bytes} (h : IsBeginning piece) : piece.length ≤ 3 := by
  obtain ⟨-, c, b, later, hc⟩ := isBeginning_iff.1 h
  have hlength := congrArg List.length hc
  have hfour := Char.utf8Size_le_four c
  rw [String.length_utf8EncodeChar, List.length_append, List.length_cons] at hlength
  omega

end Beginnings

section Pieces

variable {first second third b : UInt8} {rest piece piece' after after' : Bytes}

theorem one_le_brokenLength (b : UInt8) (rest : Bytes) : 1 ≤ brokenLength b rest := by
  unfold brokenLength
  grind

/-- The piece that is taken is a byte, or a beginning. -/
theorem begins_brokenLength (b : UInt8) (rest : Bytes) :
    (b :: rest.take (brokenLength b rest - 1)).length = 1 ∨
      IsBeginning (b :: rest.take (brokenLength b rest - 1)) := by
  cases rest with
  | nil => exact .inl rfl
  | cons second rest =>
    unfold brokenLength
    dsimp only
    split
    · next hfollow =>
      cases rest with
      | nil => exact .inr (isBeginning_two_iff.2 hfollow)
      | cons third rest =>
        dsimp only
        split
        · next hthird =>
          rw [Bool.and_eq_true, decide_eq_true_eq] at hthird
          exact .inr (isBeginning_three_iff.2
            ⟨hfollow, UInt8.le_iff_toNat_le.1 hthird.1, hthird.2⟩)
        · exact .inr (isBeginning_two_iff.2 hfollow)
    · exact .inl rfl

theorem two_le_brokenLength (rest : Bytes) (h : canFollow first second = true) :
    2 ≤ brokenLength first (second :: rest) := by
  unfold brokenLength
  grind

theorem brokenLength_eq_three (rest : Bytes) (h : canFollow first second = true)
    (hfirst : 0xF0 ≤ first.toNat) (hthird : isContinuation third = true) :
    brokenLength first (second :: third :: rest) = 3 := by
  have hfour : decide (first ≥ 0xF0) = true := decide_eq_true (UInt8.le_iff_toNat_le.2 hfirst)
  simp only [brokenLength, h, hthird, hfour, if_true, Bool.and_self]

/-- No beginning goes on after the piece that is taken. -/
theorem IsBeginning.length_le_brokenLength (h : IsBeginning piece)
    (hstart : piece <+: b :: rest) : piece.length ≤ brokenLength b rest := by
  obtain ⟨after, hafter⟩ := hstart
  match piece with
  | [] => exact Nat.zero_le _
  | [_] => exact one_le_brokenLength b rest
  | [first, second] =>
    cases hafter
    exact two_le_brokenLength after (isBeginning_two_iff.1 h)
  | [first, second, third] =>
    cases hafter
    obtain ⟨hfollow, hfirst, hthird⟩ := isBeginning_three_iff.1 h
    exact Nat.le_of_eq (brokenLength_eq_three after hfollow hfirst hthird).symm
  | _ :: _ :: _ :: _ :: _ =>
    have hlength := h.length_le
    simp only [List.length_cons] at hlength
    omega

/-- **The piece that is taken is broken**, where there is no character. -/
theorem isBroken_brokenLength (h : leading? (b :: rest) = none) :
    IsBroken (b :: rest.take (brokenLength b rest - 1)) (rest.drop (brokenLength b rest - 1)) := by
  have hall : b :: rest.take (brokenLength b rest - 1) ++ rest.drop (brokenLength b rest - 1) =
      b :: rest := by
    rw [List.cons_append, List.take_append_drop]
  refine ⟨?_, begins_brokenLength b rest, fun longer hprefix hlonger => ?_⟩
  · rw [hall]
    exact leading?_eq_none_iff.1 h
  · rw [hall] at hprefix
    have hle := hlonger.length_le_brokenLength hprefix
    have hshort := hprefix.length_le
    rw [List.length_cons] at hshort
    rw [List.length_cons, List.length_take]
    omega

/-- A broken piece is not empty. -/
theorem IsBroken.length_pos (h : IsBroken piece after) : 0 < piece.length := by
  rcases h.begins with hone | ⟨hne, -⟩
  · omega
  · exact List.length_pos_iff.2 hne

/-- Two broken pieces at one place are as long. -/
theorem IsBroken.length_le (h : IsBroken piece after) (h' : IsBroken piece' after')
    (heq : piece ++ after = piece' ++ after') :
    piece'.length ≤ piece.length := by
  rcases h'.begins with hone | hbegins
  · rw [hone]
    exact h.length_pos
  · exact h.longest piece' ⟨after', heq.symm⟩ hbegins

/-- **There is one way to take a broken piece.** -/
theorem IsBroken.unique (h : IsBroken piece after) (h' : IsBroken piece' after')
    (heq : piece ++ after = piece' ++ after') :
    piece = piece' ∧ after = after' :=
  List.append_inj heq (Nat.le_antisymm (h'.length_le h heq.symm) (h.length_le h' heq))

end Pieces

/-- A broken piece is read as one character, and then the bytes after it. -/
theorem decodeLossy_broken {piece after : Bytes} (h : IsBroken piece after) :
    decodeLossy (piece ++ after) = '\uFFFD' :: decodeLossy after := by
  obtain ⟨b, later, rfl⟩ := List.exists_cons_of_length_pos h.length_pos
  have hnone : leading? (b :: (later ++ after)) = none := leading?_eq_none_iff.2 h.noCharacter
  obtain ⟨-, hafter⟩ := h.unique (isBroken_brokenLength hnone)
    (by rw [List.cons_append, List.cons_append, List.take_append_drop])
  rw [List.cons_append, decodeLossy, units, hnone]
  dsimp only
  rw [← hafter]
  rfl

/-- The bytes are read as they are to be read. -/
theorem reads_decodeLossy (bytes : Bytes) : Reads bytes (decodeLossy bytes) := by
  unfold decodeLossy
  fun_induction units bytes with
  | case1 => exact .nil
  | case2 b rest c hleading ih =>
    rw [eq_of_leading? hleading]
    exact .character c ih
  | case3 b rest hleading ih =>
    have hreads := Reads.broken (isBroken_brokenLength hleading) ih
    rwa [List.cons_append, List.take_append_drop] at hreads

/-- **All bytes are read, and in one way.** -/
theorem reads_iff {bytes : Bytes} {text : Text} : Reads bytes text ↔ decodeLossy bytes = text := by
  constructor
  · intro h
    induction h with
    | nil => exact decodeLossy_encode []
    | character c h ih =>
      rw [decodeLossy, units_encodeChar_append, List.map_cons]
      exact congrArg _ ih
    | broken hbroken h ih => rw [decodeLossy_broken hbroken, ih]
  · rintro rfl
    exact reads_decodeLossy bytes

end Utf8

namespace Storage

/-- **The text of a file**: what is read from its bytes, without a byte order mark at the start.
Only one is left out. -/
def Decodes (content : Bytes) (text : Text) : Prop :=
  Utf8.Reads content (byteOrderMark :: text) ∨
    Utf8.Reads content text ∧ text.head? ≠ some byteOrderMark

/-- **Every file has one text.** -/
theorem decodes_iff {content : Bytes} {text : Text} :
    Decodes content text ↔ textOf content = text := by
  unfold Decodes textOf
  rw [Utf8.reads_iff, Utf8.reads_iff]
  cases Utf8.decodeLossy content with
  | nil =>
    constructor
    · rintro (h | ⟨rfl, -⟩)
      · cases h
      · rfl
    · rintro rfl
      exact .inr ⟨rfl, nofun⟩
  | cons c later =>
    rw [Text.dropMark]
    by_cases hmark : c = byteOrderMark
    · rw [if_pos hmark, hmark]
      constructor
      · rintro (h | ⟨rfl, hne⟩)
        · exact (List.cons.inj h).2
        · exact absurd rfl hne
      · rintro rfl
        exact .inl rfl
    · rw [if_neg hmark]
      constructor
      · rintro (h | ⟨h, -⟩)
        · exact absurd (List.cons.inj h).1 hmark
        · exact h
      · rintro rfl
        exact .inr ⟨rfl, fun h => hmark (Option.some.inj h)⟩

/-- A mark, a letter, the first two bytes of a character of three, and a letter. -/
example : textOf [0xEF, 0xBB, 0xBF, 0x41, 0xE2, 0x82, 0x42] = ['A', '\uFFFD', 'B'] := by
  decide +kernel

end Storage

end Stencil
