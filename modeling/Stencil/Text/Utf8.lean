import Stencil.Text.Basic

/-!
# UTF-8

Text as bytes and back. Bytes are read as a sequence of units, each a character or a piece that is
part of none; a broken piece is as long as the longest beginning of a character found there.

* `units_encodeChar_append`: a character is read first, and then the bytes after it.
* `decode?_encode`: what is written as UTF-8 reads back, without loss.
* `encode_of_decode?`: bytes that are read as UTF-8 are those of the text.
* `decodeLossy_encode`: so does the reading that puts U+FFFD for every broken piece.
-/

namespace Stencil

/-- Bytes, one by one. -/
abbrev Bytes := List UInt8

namespace Utf8

/-- The text in UTF-8. -/
def encode (text : Text) : Bytes := text.flatMap String.utf8EncodeChar

/-- The character that the bytes start with. -/
def leading? (bytes : Bytes) : Option Char := (bytes.take 4).toByteArray.utf8DecodeChar? 0

/-- Whether `b` can stand in a character after its first byte. -/
def isContinuation (b : UInt8) : Bool := 0x80 ≤ b && b ≤ 0xBF

/-- Whether `second` can follow `first` in a character of three or four bytes. -/
def canFollow (first second : UInt8) : Bool :=
  if first == 0xE0 then 0xA0 ≤ second && second ≤ 0xBF
  else if first == 0xED then 0x80 ≤ second && second ≤ 0x9F
  else if first == 0xF0 then 0x90 ≤ second && second ≤ 0xBF
  else if first == 0xF4 then 0x80 ≤ second && second ≤ 0x8F
  else 0xE1 ≤ first && first ≤ 0xF3 && isContinuation second

/-- The number of bytes of the broken piece that starts with `first`. -/
def brokenLength (first : UInt8) : Bytes → Nat
  | second :: rest =>
    if canFollow first second then
      match rest with
      | third :: _ => if first ≥ 0xF0 && isContinuation third then 3 else 2
      | [] => 2
    else 1
  | [] => 1

/-- The units of the bytes: a character, or `none` for a broken piece. -/
def units : Bytes → List (Option Char)
  | [] => []
  | b :: rest =>
    match leading? (b :: rest) with
    | some c => some c :: units (rest.drop (c.utf8Size - 1))
    | none => none :: units (rest.drop (brokenLength b rest - 1))
  termination_by bytes => bytes.length
  decreasing_by all_goals simp; try omega

/-- The text of the bytes, if they are UTF-8 throughout. -/
def decode? (bytes : Bytes) : Option Text := (units bytes).mapM id

/-- The text of the bytes, with U+FFFD for each broken piece. -/
def decodeLossy (bytes : Bytes) : Text := (units bytes).map (·.getD '\uFFFD')

theorem leading?_encode_cons (c : Char) (bytes : Bytes) :
    leading? (String.utf8EncodeChar c ++ bytes) = some c := by
  have hlen : (String.utf8EncodeChar c).length ≤ 4 := by
    rw [String.length_utf8EncodeChar]; exact Char.utf8Size_le_four c
  rw [leading?, List.take_append, List.take_of_length_le hlen, List.toByteArray_append]
  exact ByteArray.utf8DecodeChar?_utf8EncodeChar_append

/-- The bytes that a character is read from are those of the character. -/
theorem exists_of_leading? {bytes : Bytes} {c : Char} (h : leading? bytes = some c) :
    ∃ rest, bytes = String.utf8EncodeChar c ++ rest := by
  have harray := ByteArray.eq_of_utf8DecodeChar?_eq_some h
  have hlist := congrArg (fun array : ByteArray => array.data.toList) harray
  have htake : String.utf8EncodeChar c <+: bytes.take 4 := ⟨_, by simpa using hlist.symm⟩
  obtain ⟨rest, hrest⟩ := htake.trans (List.take_prefix 4 bytes)
  exact ⟨rest, hrest.symm⟩

/-- A character is followed by the bytes that are read next. -/
theorem eq_of_leading? {b : UInt8} {rest : Bytes} {c : Char} (h : leading? (b :: rest) = some c) :
    b :: rest = String.utf8EncodeChar c ++ rest.drop (c.utf8Size - 1) := by
  obtain ⟨after, hafter⟩ := exists_of_leading? h
  have hdrop : (b :: rest).drop c.utf8Size = after := by
    rw [hafter, ← String.length_utf8EncodeChar c, List.drop_left]
  have hpos := Char.utf8Size_pos c
  rw [show c.utf8Size = c.utf8Size - 1 + 1 by omega, List.drop_succ_cons] at hdrop
  rw [hafter, hdrop]

/-- A character is the first unit of its bytes and those after them. -/
theorem units_encodeChar_append (c : Char) (bytes : Bytes) :
    units (String.utf8EncodeChar c ++ bytes) = some c :: units bytes := by
  have hleading := leading?_encode_cons c bytes
  cases hall : String.utf8EncodeChar c ++ bytes with
  | nil =>
    have hlength := String.length_utf8EncodeChar c
    rw [(List.append_eq_nil_iff.1 hall).1, List.length_nil] at hlength
    exact absurd hlength (Nat.ne_of_lt (Char.utf8Size_pos c))
  | cons b rest =>
    rw [hall] at hleading
    have hrest : rest.drop (c.utf8Size - 1) = bytes :=
      List.append_cancel_left ((eq_of_leading? hleading).symm.trans hall.symm)
    rw [units, hleading]
    dsimp only
    rw [hrest]

/-- **What is written reads back**, unit by unit. -/
theorem units_encode (text : Text) : units (encode text) = text.map some := by
  induction text with
  | nil => simp [encode, units]
  | cons c text ih =>
    rw [encode, List.flatMap_cons, units_encodeChar_append, List.map_cons]
    exact congrArg _ ih

theorem decode?_encode (text : Text) : decode? (encode text) = some text := by
  rw [decode?, units_encode]
  induction text with
  | nil => rfl
  | cons c text ih => simp [List.mapM_cons, ih]

/-- **Bytes that are read as UTF-8** are those of the text. -/
theorem encode_of_decode? {bytes : Bytes} {text : Text} (h : decode? bytes = some text) :
    encode text = bytes := by
  unfold decode? at h
  fun_induction units bytes generalizing text with
  | case1 =>
    cases h
    rfl
  | case2 b rest c hleading ih =>
    obtain ⟨later, htext, rfl⟩ : ∃ later,
        (units (rest.drop (c.utf8Size - 1))).mapM id = some later ∧ c :: later = text := by
      simpa [List.mapM_cons, Option.bind_eq_some_iff] using h
    have hlater := ih htext
    rw [eq_of_leading? hleading, ← hlater]
    rfl
  | case3 b rest hleading ih =>
    rw [List.mapM_cons] at h
    cases h

/-- Different texts have different bytes. -/
theorem encode_injective : Function.Injective encode := by
  intro text other h
  have hdecode := decode?_encode text
  rw [h, decode?_encode] at hdecode
  exact (Option.some.inj hdecode).symm

theorem decodeLossy_encode (text : Text) : decodeLossy (encode text) = text := by
  simp [decodeLossy, units_encode, List.map_map, Function.comp_def]

end Utf8

/-- The byte order mark, which some editors write at the start of a file. -/
def byteOrderMark : Char := '\uFEFF'

/-- The text without one byte order mark at its start. -/
def Text.dropMark : Text → Text
  | [] => []
  | c :: rest => if c = byteOrderMark then rest else c :: rest

end Stencil
