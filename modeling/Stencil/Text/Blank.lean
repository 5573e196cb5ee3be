import Stencil.Text.Basic

/-!
# Blank characters

The characters with the property White_Space, and text without them at its ends.

* `isBlank_of_isWhitespace`: the blanks that a keyboard types are among them.
* `trim_eq_self`: a text that neither starts nor ends with a blank is its own trim.
* `trim_append_of_blank`: blanks at the end do not matter.
* `head?_trim`, `getLast?_trim`: what is trimmed neither starts nor ends with a blank.
* `trim_trim`: trimming twice is trimming once.
-/

namespace Stencil

/-- The twenty-five characters with the property White_Space. -/
def isBlank (c : Char) : Bool :=
  let n := c.toNat
  (0x9 ≤ n && n ≤ 0xD) || n == 0x20 || n == 0x85 || n == 0xA0 || n == 0x1680 ||
    (0x2000 ≤ n && n ≤ 0x200A) || n == 0x2028 || n == 0x2029 || n == 0x202F || n == 0x205F ||
    n == 0x3000

theorem isBlank_of_isWhitespace {c : Char} (h : c.isWhitespace = true) : isBlank c = true := by
  simp only [Char.isWhitespace, Bool.or_eq_true, decide_eq_true_eq] at h
  rcases h with ((h | h) | h) | h <;> subst h <;> decide

namespace Text

/-- The text without the blanks at its start. -/
def trimStart (text : Text) : Text := text.dropWhile isBlank

/-- The text without the blanks at its end. -/
def trimEnd (text : Text) : Text := (text.reverse.dropWhile isBlank).reverse

/-- The text without the blanks at its two ends. -/
def trim (text : Text) : Text := trimEnd (trimStart text)

theorem trim_eq_self {text : Text} (first : ∀ c ∈ text.head?, isBlank c = false)
    (last : ∀ c ∈ text.getLast?, isBlank c = false) : trim text = text := by
  have start : trimStart text = text := by
    cases text with
    | nil => rfl
    | cons c rest => simp [trimStart, List.dropWhile, first c (by simp)]
  rw [trim, start, trimEnd]
  cases h : text.reverse with
  | nil => simp [List.reverse_eq_nil_iff.1 h]
  | cons c rest =>
    have hc : c ∈ text.getLast? := by
      rw [← List.head?_reverse, h]; rfl
    rw [List.dropWhile_cons_of_neg (by simp [last c hc]), ← h, List.reverse_reverse]

/-- What is trimmed does not depend on blanks at the end. -/
theorem trim_append_of_blank {text blanks : Text} (h : ∀ c ∈ blanks, isBlank c = true) :
    trim (text ++ blanks) = trim text := by
  have hstart : (blanks ++ []).dropWhile isBlank = [] := List.dropWhile_append_of_pos h
  rw [List.append_nil] at hstart
  have hend : ∀ rest : Text, trimEnd (rest ++ blanks) = trimEnd rest := by
    intro rest
    rw [trimEnd, List.reverse_append,
      List.dropWhile_append_of_pos fun c hc => h c (List.mem_reverse.1 hc)]
    rfl
  rw [trim, trim, trimStart, trimStart, List.dropWhile_append, hstart]
  split
  · next hnone => rw [List.isEmpty_iff.1 hnone]
  · exact hend _

/-- Without the blanks at its end a text is a beginning of itself. -/
theorem trimEnd_isPrefix (text : Text) : trimEnd text <+: text := by
  have h := List.takeWhile_append_dropWhile (p := isBlank) (l := text.reverse)
  refine ⟨(text.reverse.takeWhile isBlank).reverse, ?_⟩
  rw [trimEnd, ← List.reverse_append, h, List.reverse_reverse]

/-- Trimming only takes away. -/
theorem mem_of_mem_trim {text : Text} {c : Char} (h : c ∈ trim text) : c ∈ text :=
  (List.dropWhile_suffix isBlank).mem ((trimEnd_isPrefix (trimStart text)).mem h)

/-- What is trimmed does not start with a blank. -/
theorem head?_trim {text : Text} {c : Char} (h : c ∈ (trim text).head?) : isBlank c = false := by
  -- it starts like the text without the blanks at its start
  obtain ⟨rest, hrest⟩ := trimEnd_isPrefix (trimStart text)
  have hstart : (trimStart text).head? = some c := by
    rw [← hrest, List.head?_append]
    exact Option.or_eq_some_iff.2 (.inl h)
  have hdrop := List.head?_dropWhile_not isBlank text
  rw [trimStart] at hstart
  rw [hstart] at hdrop
  exact hdrop

/-- What is trimmed does not end with a blank. -/
theorem getLast?_trim {text : Text} {c : Char} (h : c ∈ (trim text).getLast?) :
    isBlank c = false := by
  have hdrop := List.head?_dropWhile_not isBlank (trimStart text).reverse
  rw [trim, trimEnd, List.getLast?_reverse] at h
  rw [h] at hdrop
  exact hdrop

theorem trim_trim (text : Text) : trim (trim text) = trim text :=
  trim_eq_self (fun _ => head?_trim) fun _ => getLast?_trim

end Text

end Stencil
