import Stencil.Proofs.Search
import Stencil.Text.Utf8

/-!
# Names, and what is read as one

The characters of names are ASCII, so a text is a name exactly if its bytes are those of one. And
what is a name is what the search reads as one between two delimiters, even if the delimiters are
made of characters of names.

* `isNameBytes_encode`: **names can be told by their bytes.**
* `Pair.nameAt?_wrap`: a name between the delimiters is read as a whole.
* `Delimiters.tokens_wrap_iff`: **exactly names are read back from between the delimiters.**
-/

namespace Stencil

/-- Whether a byte is the ASCII code of a letter, a digit or the hyphen. -/
def isNameByte (b : UInt8) : Bool :=
  (0x41 ≤ b && b ≤ 0x5A) || (0x61 ≤ b && b ≤ 0x7A) || (0x30 ≤ b && b ≤ 0x39) || b == 0x2D

/-- Whether the bytes are those of the name of a placeholder. -/
def isNameBytes (bytes : Bytes) : Bool := !bytes.isEmpty && bytes.all isNameByte

/-- The numbers of the characters of names. -/
def IsNameCode (n : Nat) : Prop :=
  (0x41 ≤ n ∧ n ≤ 0x5A) ∨ (0x61 ≤ n ∧ n ≤ 0x7A) ∨ (0x30 ≤ n ∧ n ≤ 0x39) ∨ n = 0x2D

theorem isNameByte_iff {b : UInt8} : isNameByte b = true ↔ IsNameCode b.toNat := by
  simp only [isNameByte, IsNameCode, Bool.or_eq_true, Bool.and_eq_true, decide_eq_true_eq, beq_iff_eq,
    UInt8.le_iff_toNat_le, ← UInt8.toNat_inj, or_assoc]
  exact Iff.rfl

theorem isNameChar_iff {c : Char} : isNameChar c = true ↔ IsNameCode c.toNat := by
  have hhyphen : c = '-' ↔ c.toNat = 0x2D := by
    constructor
    · rintro rfl
      rfl
    · intro h
      rw [← Char.ofNat_toNat c, h]
  simp only [isNameChar, IsNameCode, Bool.or_eq_true, beq_iff_eq, isAlphanum_iff, hhyphen, or_assoc]

/-- A byte that is no ASCII is in no name. -/
theorem not_isNameByte {n : Nat} (hlow : 0x80 ≤ n) (hhigh : n < 0x100) :
    isNameByte (UInt8.ofNat n) = false := by
  rw [Bool.eq_false_iff, Ne, isNameByte_iff, UInt8.toNat_ofNat', Nat.mod_eq_of_lt hhigh]
  unfold IsNameCode
  omega

/-- A character that is not ASCII begins with a byte that is not either. -/
theorem exists_utf8EncodeChar_of_not_ascii {c : Char} (h : 0x7F < c.toNat) :
    ∃ n rest, 0x80 ≤ n ∧ n < 0x100 ∧ String.utf8EncodeChar c = UInt8.ofNat n :: rest := by
  have hval : c.val.toNat = c.toNat := rfl
  unfold String.utf8EncodeChar
  dsimp only
  rw [hval, if_neg (by omega)]
  -- two, three or four bytes, each with its mark in the first
  split_ifs
  · exact ⟨c.toNat / 64 % 32 + 192, _, by omega, by omega, rfl⟩
  · exact ⟨c.toNat / 4096 % 16 + 224, _, by omega, by omega, rfl⟩
  · exact ⟨c.toNat / 262144 % 8 + 240, _, by omega, by omega, rfl⟩

/-- **A character of names is told by its bytes**: it is ASCII, so it has one, and all others have a
byte that is in no name. -/
theorem all_isNameByte_utf8EncodeChar (c : Char) :
    (String.utf8EncodeChar c).all isNameByte = isNameChar c := by
  by_cases hascii : c.toNat ≤ 0x7F
  · have hbytes : String.utf8EncodeChar c = [UInt8.ofNat c.toNat] := if_pos hascii
    have hcode : (UInt8.ofNat c.toNat).toNat = c.toNat := by
      rw [UInt8.toNat_ofNat']
      omega
    rw [hbytes, List.all_cons, List.all_nil, Bool.and_true, Bool.eq_iff_iff, isNameByte_iff, hcode,
      isNameChar_iff]
  · have hno : isNameChar c = false := by
      rw [Bool.eq_false_iff, Ne, isNameChar_iff]
      unfold IsNameCode
      omega
    have hbeyond : 0x7F < c.toNat := by omega
    obtain ⟨n, rest, hlow, hhigh, hbytes⟩ := exists_utf8EncodeChar_of_not_ascii hbeyond
    rw [hbytes, List.all_cons, not_isNameByte hlow hhigh, Bool.false_and, hno]

/-- **Names can be told by their bytes.** -/
theorem isNameBytes_encode (text : Text) : isNameBytes (Utf8.encode text) = isName text := by
  have hall : (Utf8.encode text).all isNameByte = text.all isNameChar := by
    unfold Utf8.encode
    rw [List.all_flatMap]
    simp only [all_isNameByte_utf8EncodeChar]
  have hempty : (Utf8.encode text).isEmpty = text.isEmpty := by
    cases text with
    | nil => rfl
    | cons c text =>
      have hsize := Char.utf8Size_pos c
      rw [← String.length_utf8EncodeChar] at hsize
      unfold Utf8.encode
      simp [List.length_pos_iff.1 hsize]
  rw [isNameBytes, isName, hall, hempty]

namespace Pair

variable {pair : Pair} {name : Text}

/-- **A name between the delimiters is read as a whole**: a longer one would not fit. -/
theorem nameAt?_wrap (h : isName name = true) : pair.nameAt? (pair.wrap name) = some name := by
  obtain ⟨longest, hread, hprefix⟩ := exists_nameAt? h (List.prefix_refl (pair.wrap name))
  have hfits := (nameAt?_eq_some hread).2.length_le
  have hlength : longest.length ≤ name.length := by
    simp only [wrap, List.length_append] at hfits
    omega
  rw [hread, hprefix.eq_of_length_le hlength]

/-- Exactly names are read back from between the delimiters. -/
theorem names_wrap_iff (pair : Pair) (name : Text) :
    pair.names (pair.wrap name) = [name] ↔ isName name = true := by
  constructor
  · intro h
    have hmem : name ∈ pair.names (pair.wrap name) := by
      rw [h]
      exact List.mem_singleton_self name
    exact (infix_of_mem_names hmem).1
  · intro h
    have hread : pair.nameAt? (pair.wrap name ++ []) = some name := by
      rw [List.append_nil]
      exact nameAt?_wrap h
    have hnames := names_of_nameAt? hread
    rwa [List.append_nil, names_nil] at hnames

end Pair

/-- **Exactly names are read back from between the delimiters**, in either form and whatever the
delimiters are: what is put between them is the only placeholder in the result if and only if it is
a name. And a text is a name if and only if its bytes are letters, digits and hyphens of ASCII. -/
theorem Delimiters.tokens_wrap_iff (d : Delimiters) (form : Form) (name : Text) :
    (d.tokens form ((d.pair form).wrap name) = [⟨(d.pair form).wrap name, name⟩] ↔
      isName name = true) ∧
    isNameBytes (Utf8.encode name) = isName name := by
  refine ⟨?_, isNameBytes_encode name⟩
  rw [← (d.pair form).names_wrap_iff name]
  unfold tokens Pair.tokens
  constructor
  · intro h
    have hnames := congrArg (List.map Token.name) h
    rw [List.map_map] at hnames
    simpa using hnames
  · intro h
    rw [h]
    rfl

-- Between delimiters of letters a name is read as a whole, and of what is no name, a part.
example :
    let pair : Pair := ⟨['a'], ['b', 'a']⟩
    pair.tokens (pair.wrap "bab".toList) = [⟨"ababba".toList, "bab".toList⟩] ∧
      pair.tokens (pair.wrap "b_ac".toList) = [⟨"acba".toList, "c".toList⟩] := by
  decide +kernel

end Stencil
