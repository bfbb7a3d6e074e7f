import MavPayload.Text.Blank
import Mathlib.Data.List.TakeWhile

/-! Blanks at the ends of a text. What is left without them is known by its own ends, and a text
is what is left with blanks on both sides. -/
namespace MavPayload.Text

variable {chars front back : List Char}

theorem ends_visible (visible : ∀ char ∈ chars, isBlank char = false) :
    (∀ char ∈ chars.head?, isBlank char = false) ∧ ∀ char ∈ chars.getLast?, isBlank char = false :=
  ⟨fun char first => visible char (List.mem_of_mem_head? first),
    fun char last => visible char (List.mem_of_mem_getLast? last)⟩

theorem dropWhile_isBlank (visible : ∀ char ∈ chars.head?, isBlank char = false) :
    chars.dropWhile isBlank = chars := by
  cases chars with
  | nil => rfl
  | cons first rest =>
    have first : isBlank first = false := visible first rfl
    simp [first]

theorem trim_append_blanks {blanks : List Char}
    (first : ∀ char ∈ chars.head?, isBlank char = false)
    (last : ∀ char ∈ chars.getLast?, isBlank char = false)
    (blank : ∀ char ∈ blanks, isBlank char = true) : trim (chars ++ blanks) = chars := by
  have front : (chars ++ blanks).dropWhile isBlank =
      chars ++ if chars = [] then [] else blanks := by
    cases chars with
    | nil =>
      rw [if_pos rfl,List.nil_append,List.nil_append,List.dropWhile_eq_nil_iff]
      exact blank
    | cons char chars =>
      rw [if_neg (List.cons_ne_nil _ _)]
      exact dropWhile_isBlank first
  have rear : ∀ char ∈ (if chars = [] then [] else blanks).reverse, isBlank char = true := by
    intro char member
    split at member
    · cases member
    · exact blank char (List.mem_reverse.mp member)
  rw [trim,front,List.reverse_append,List.dropWhile_append_of_pos rear,
    dropWhile_isBlank (by rwa [List.head?_reverse]),List.reverse_reverse]

theorem trim_blanks_append (blank : ∀ char ∈ front, isBlank char = true) :
    trim (front ++ chars) = trim chars := by
  rw [trim,trim,List.dropWhile_append_of_pos blank]

theorem trim_between (first : ∀ char ∈ chars.head?, isBlank char = false)
    (last : ∀ char ∈ chars.getLast?, isBlank char = false)
    (blankFront : ∀ char ∈ front, isBlank char = true)
    (blankBack : ∀ char ∈ back, isBlank char = true) : trim (front ++ chars ++ back) = chars := by
  rw [List.append_assoc,trim_blanks_append blankFront,trim_append_blanks first last blankBack]

/-- A text is what is left without the blanks at its ends, and blanks on both sides. -/
theorem exists_trim (chars : List Char) : ∃ front back, chars = front ++ trim chars ++ back ∧
    (∀ char ∈ front, isBlank char = true) ∧ ∀ char ∈ back, isBlank char = true := by
  have blank (chars : List Char) : ∀ char ∈ chars.takeWhile isBlank, isBlank char = true :=
    fun _ member => List.mem_takeWhile_imp member
  refine ⟨chars.takeWhile isBlank,
    ((chars.dropWhile isBlank).reverse.takeWhile isBlank).reverse,?_,blank chars,?_⟩
  · rw [List.append_assoc,trim,← List.reverse_append,List.takeWhile_append_dropWhile,
      List.reverse_reverse,List.takeWhile_append_dropWhile]
  · exact fun char member => blank _ char (List.mem_reverse.mp member)

end MavPayload.Text
