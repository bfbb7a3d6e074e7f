import MavPayload.Json.Literal
import MavPayload.Text.Digits

/-! Literals and their text. A text that spells a literal part by part is read as it,
because each part ends at a character that cannot belong to it. -/
namespace MavPayload

namespace Text

theorem isDigit_of_mem_decimal {value : Nat} {char : Char} (member : char ∈ decimal value) :
    char.isDigit = true :=
  Nat.isDigit_of_mem_toDigits (by decide) (by decide) member

theorem decimal_leadingZero {value : Nat} {rest : List Char} (zero : decimal value = '0' :: rest) :
    value = 0 ∧ rest = [] := by
  induction value using Nat.strongRecOn generalizing rest with
  | ind value ih =>
    rw [decimal,Nat.toDigits_eq_if (by decide)] at zero
    split at zero
    · rename_i single
      obtain ⟨digit,rfl⟩ := List.cons.inj zero
      refine ⟨?_,rfl⟩
      have same := congrArg (fun char => char.toNat - 48) digit
      simpa [Nat.toNat_digitChar_sub_48_of_lt_ten single] using same
    · rename_i long
      have less : value / 10 < value := by omega
      cases front : Nat.toDigits 10 (value / 10) with
      | nil => exact absurd front Nat.toDigits_ne_nil
      | cons first others =>
        rw [front,List.cons_append] at zero
        obtain ⟨rfl,_⟩ := List.cons.inj zero
        have none := (ih _ less front).1
        omega

end Text

namespace Json.Literal

/-- Whether some characters are digits and at least one. -/
structure IsRun (run : List Char) : Prop where
  nonempty : run ≠ []
  digits : ∀ char ∈ run, char.isDigit = true

theorem isRun_decimal (value : Nat) : IsRun (Text.decimal value) :=
  ⟨Nat.toDigits_ne_nil,fun _ member => Text.isDigit_of_mem_decimal member⟩

/-- Whether a literal has digits where its grammar wants them. -/
structure Proper (literal : Literal) : Prop where
  whole : IsRun literal.whole
  leading : ∀ rest, literal.whole = '0' :: rest → rest = []
  fraction : ∀ run, literal.fraction = some run → IsRun run

def fractionText : Option (List Char) → List Char
  | none => []
  | some run => '.' :: run

def exponentText : Option Int → List Char
  | none => []
  | some exponent =>
    'e' :: (if exponent < 0 then '-' else '+') :: Text.decimal exponent.natAbs

/-- A literal as text, with a sign in front of the exponent. -/
def spelled (literal : Literal) : List Char :=
  (if literal.isNegative then ['-'] else []) ++ literal.whole ++
    fractionText literal.fraction ++ exponentText literal.exponent

theorem digits?_append {run rest : List Char} (isRun : IsRun run)
    (ends : ∀ char ∈ rest.head?, char.isDigit = false) :
    digits? (run ++ rest) = some (run,rest) := by
  have stop : rest.takeWhile Char.isDigit = [] ∧ rest.dropWhile Char.isDigit = rest := by
    cases rest with
    | nil => exact ⟨rfl,rfl⟩
    | cons char rest => simp [ends char rfl]
  have taken : (run ++ rest).takeWhile Char.isDigit = run := by
    rw [List.takeWhile_append_of_pos isRun.digits,stop.1,List.append_nil]
  have left : (run ++ rest).dropWhile Char.isDigit = rest := by
    rw [List.dropWhile_append_of_pos isRun.digits,stop.2]
  obtain ⟨first,others,rfl⟩ := List.exists_cons_of_ne_nil isRun.nonempty
  rw [digits?,taken,left]

theorem exponent?_exponentText (exponent : Option Int) :
    exponent? (exponentText exponent) = some exponent := by
  cases exponent with
  | none => rfl
  | some exponent =>
    have run : digits? (Text.decimal exponent.natAbs ++ []) =
        some (Text.decimal exponent.natAbs,[]) :=
      digits?_append (isRun_decimal exponent.natAbs) (by simp)
    rw [List.append_nil] at run
    have size : Nat.ofDigitChars 10 (Text.decimal exponent.natAbs) 0 = exponent.natAbs :=
      Nat.ofDigitChars_ten_toDigits
    by_cases negative : exponent < 0
    · have signed : -(exponent.natAbs : Int) = exponent := by omega
      simp only [exponentText,negative,if_true,exponent?,run,Option.bind_eq_bind,Option.bind_some,
        size,signed]
      rfl
    · have signed : (exponent.natAbs : Int) = exponent := by omega
      simp only [exponentText,negative,if_false,exponent?,run,Option.bind_eq_bind,Option.bind_some,
        size,signed]
      rfl

theorem exponentText_ends (exponent : Option Int) :
    ∀ char ∈ (exponentText exponent).head?, char.isDigit = false ∧ char ≠ '.' := by
  cases exponent <;> simp [exponentText]

theorem fraction?_fractionText {fraction : Option (List Char)}
    (runs : ∀ run, fraction = some run → IsRun run) {rest : List Char}
    (ends : ∀ char ∈ rest.head?, char.isDigit = false ∧ char ≠ '.') :
    fraction? (fractionText fraction ++ rest) = some (fraction,rest) := by
  cases fraction with
  | none =>
    simp only [fractionText,List.nil_append]
    unfold fraction?
    split
    · exact absurd rfl (ends _ rfl).2
    · rfl
  | some run =>
    have read := digits?_append (runs run rfl) fun char member => (ends char member).1
    simp [fractionText,fraction?,read]

theorem whole?_append {literal : Literal} (proper : literal.Proper) {rest : List Char}
    (ends : ∀ char ∈ rest.head?, char.isDigit = false) :
    whole? (literal.whole ++ rest) = some (literal.whole,rest) := by
  rw [whole?,digits?_append proper.whole ends]
  simp only [Option.bind_eq_bind,Option.bind_some]
  split
  · rename_i second others zero
    exact absurd (proper.leading _ zero) (by simp)
  · rfl

theorem ofChars?_spelled {literal : Literal} (proper : literal.Proper) :
    ofChars? literal.spelled = some literal := by
  have exponent := exponentText_ends literal.exponent
  have fraction := fraction?_fractionText proper.fraction exponent
  have ends : ∀ char ∈ (fractionText literal.fraction ++
      exponentText literal.exponent).head?, char.isDigit = false := by
    cases part : literal.fraction with
    | none => exact fun char member => (exponent char member).1
    | some run => simp [fractionText]
  have whole := whole?_append proper ends
  obtain ⟨first,others,shape⟩ := List.exists_cons_of_ne_nil proper.whole.nonempty
  have digit : first.isDigit = true := proper.whole.digits first (by simp [shape])
  have unsigned : first ≠ '-' := by
    rintro rfl
    cases digit
  rw [spelled,List.append_assoc,List.append_assoc]
  cases negative : literal.isNegative with
  | true =>
    simp [ofChars?,whole,fraction,exponent?_exponentText,← negative]
  | false =>
    simp only [ofChars?,Bool.false_eq_true,if_false,List.nil_append]
    rw [shape,List.cons_append] at whole ⊢
    split
    · rename_i same
      exact absurd (List.cons.inj same).1 unsigned
    · simp [whole,fraction,exponent?_exponentText,← negative,← shape]

end Json.Literal

end MavPayload
