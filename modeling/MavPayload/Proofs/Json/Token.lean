import MavPayload.Json.Printer
import MavPayload.Proofs.Json.Number

/-! The tokens of a text. A text is read piece by piece from its end: what a piece adds in
front of the tokens of the rest is known once it is known how the rest begins. -/
namespace MavPayload

namespace Text

theorem ofUnits?_toNat (chars : List Char) : ofUnits? (chars.map Char.toNat) = some chars := by
  have whole (char : Char) : isHighHalf char.toNat = false ∧ isLowHalf char.toNat = false := by
    have valid := char.valid
    simp only [isHighHalf,isLowHalf,Char.toNat]
    rcases valid with low | high <;>
      simp only [Bool.and_eq_false_imp,decide_eq_true_eq,decide_eq_false_iff_not] <;> omega
  induction chars with
  | nil => rfl
  | cons first rest ih =>
    obtain ⟨notHigh,notLow⟩ := whole first
    cases rest with
    | nil => simp [ofUnits?,notHigh,notLow]
    | cons second rest =>
      rw [List.map_cons,List.map_cons] at *
      rw [ofUnits?,ih,notHigh,notLow]
      simp

theorem Hex.value?_digitChar (value : Nat) (small : value < 16) :
    Hex.value? (Nat.digitChar value) = some value := by
  revert value
  decide

end Text

namespace Json

namespace Lexer

def run (lexer : Lexer) (text : List Char) : Option (List Token) :=
  text.foldlM step lexer >>= finish

theorem run_cons (lexer : Lexer) (char : Char) (rest : List Char) :
    lexer.run (char :: rest) = lexer.step char >>= fun lexer => lexer.run rest := by
  simp [run,List.foldlM_cons,Option.bind_assoc]

theorem run_append {lexer next : Lexer} {text : List Char}
    (read : text.foldlM step lexer = some next) (rest : List Char) :
    lexer.run (text ++ rest) = next.run rest := by
  simp [run,List.foldlM_append,read]

end Lexer

/-- Whether a text has these tokens, whatever tokens are in front of it. -/
def Reads (text : List Char) (tokens : List Token) : Prop :=
  ∀ earlier, Lexer.run ⟨earlier,.between⟩ text = some (earlier.reverse ++ tokens)

/-- Whether no word or number goes on in a text. -/
def Ends (text : List Char) : Prop :=
  ∀ char ∈ text.head?, isNumeric char = false ∧ isLetter char = false

theorem tokens?_eq_some {text : List Char} {tokens : List Token} (reads : Reads text tokens) :
    tokens? text = some tokens :=
  reads []

namespace Reads

variable {rest : List Char} {tokens : List Token}

theorem nil : Reads [] [] := by
  intro earlier
  simp [Lexer.run,Lexer.finish]

theorem single {char : Char} {token : Token}
    (start : ∀ earlier, Lexer.start earlier char = some { tokens := token :: earlier })
    (reads : Reads rest tokens) : Reads (char :: rest) (token :: tokens) := by
  intro earlier
  have step : Lexer.step ⟨earlier,.between⟩ char = some ⟨token :: earlier,.between⟩ := start earlier
  have later := reads (token :: earlier)
  rw [List.reverse_cons,List.append_assoc] at later
  rw [Lexer.run_cons,step]
  exact later

theorem blanks {text : List Char} (blank : ∀ char ∈ text, isBlank char = true)
    (reads : Reads rest tokens) : Reads (text ++ rest) tokens := by
  induction text with
  | nil => exact reads
  | cons char text ih =>
    intro earlier
    have step : Lexer.step ⟨earlier,.between⟩ char = some ⟨earlier,.between⟩ := by
      simp [Lexer.step,Lexer.start,blank char]
    rw [List.cons_append,Lexer.run_cons,step]
    exact ih (fun other member => blank other (List.mem_cons_of_mem _ member)) earlier

theorem complete {lexer : Lexer} {token : Token} {earlier : List Token}
    (finished : lexer.finish = some (token :: earlier).reverse)
    (stepped : ∀ char, isNumeric char = false → isLetter char = false →
      lexer.step char = Lexer.start (token :: earlier) char)
    (ends : Ends rest) (reads : Reads rest tokens) :
    lexer.run rest = some (earlier.reverse ++ token :: tokens) := by
  have later := reads (token :: earlier)
  rw [List.reverse_cons,List.append_assoc,List.singleton_append] at later
  rw [← later]
  cases rest with
  | nil => exact finished
  | cons char rest =>
    obtain ⟨notNumeric,notLetter⟩ := ends char rfl
    rw [Lexer.run_cons,Lexer.run_cons,stepped char notNumeric notLetter]
    rfl

theorem word {letters : List Char} {token : Token} (read : ∀ earlier,
      letters.foldlM Lexer.step ⟨earlier,.between⟩ = some ⟨earlier,.word letters.reverse⟩)
    (meant : Token.ofWord? letters = some token) (ends : Ends rest) (reads : Reads rest tokens) :
    Reads (letters ++ rest) (token :: tokens) := by
  intro earlier
  rw [Lexer.run_append (read earlier)]
  apply complete _ _ ends reads
  · simp [Lexer.finish,meant]
  · intro char _ notLetter
    simp [Lexer.step,notLetter,meant]

end Reads

section Numbers

theorem isNumeric_of_isDigit {char : Char} (digit : char.isDigit = true) :
    isNumeric char = true := by
  simp [isNumeric,digit]

theorem Literal.IsRun.numeric {run : List Char} (isRun : Literal.IsRun run) :
    ∀ char ∈ run, isNumeric char = true :=
  fun char member => isNumeric_of_isDigit (isRun.digits char member)

theorem Literal.spelled_numeric {literal : Literal} (proper : literal.Proper) :
    ∀ char ∈ literal.spelled, isNumeric char = true := by
  have fraction : ∀ char ∈ fractionText literal.fraction, isNumeric char = true := by
    cases part : literal.fraction with
    | none => simp [fractionText]
    | some run =>
      intro char member
      rcases List.mem_cons.mp member with rfl | digit
      · rfl
      · exact (proper.fraction run part).numeric char digit
  have exponent : ∀ char ∈ exponentText literal.exponent, isNumeric char = true := by
    cases literal.exponent with
    | none => simp [exponentText]
    | some exponent =>
      intro char member
      rcases List.mem_cons.mp member with rfl | member
      · rfl
      · rcases List.mem_cons.mp member with rfl | digit
        · split <;> rfl
        · exact (isRun_decimal _).numeric char digit
  intro char member
  simp only [spelled,List.mem_append] at member
  rcases member with ((sign | whole) | part) | part
  · split at sign
    · rw [List.mem_singleton.mp sign]
      rfl
    · cases sign
  · exact proper.whole.numeric char whole
  · exact fraction char part
  · exact exponent char part

theorem Literal.spelled_cons {literal : Literal} (proper : literal.Proper) :
    ∃ first rest, literal.spelled = first :: rest ∧ (first.isDigit = true ∨ first = '-') := by
  obtain ⟨first,others,shape⟩ := List.exists_cons_of_ne_nil proper.whole.nonempty
  have digit : first.isDigit = true := proper.whole.digits first (by simp [shape])
  simp only [spelled,shape,List.append_assoc]
  split
  · exact ⟨_,_,rfl,Or.inr rfl⟩
  · exact ⟨_,_,rfl,Or.inl digit⟩

theorem not_isBlank_of_isDigit {char : Char} (digit : char.isDigit = true) :
    isBlank char = false := by
  cases blank : isBlank char with
  | false => rfl
  | true =>
    simp only [isBlank,Bool.or_eq_true,beq_iff_eq] at blank
    rcases blank with ((rfl | rfl) | rfl) | rfl <;> cases digit

theorem not_isLetter_of_isDigit {char : Char} (digit : char.isDigit = true) :
    isLetter char = false := by
  simp only [Char.isDigit,Bool.and_eq_true,decide_eq_true_eq] at digit
  have small : ¬ ('a' ≤ char) := fun large => absurd (UInt32.le_trans large digit.2) (by decide)
  simp [isLetter,small]

theorem Lexer.start_number {char : Char} (first : char.isDigit = true ∨ char = '-')
    (earlier : List Token) : start earlier char = some ⟨earlier,.number [char]⟩ := by
  have plain : isBlank char = false ∧ isLetter char = false := by
    rcases first with digit | rfl
    · exact ⟨not_isBlank_of_isDigit digit,not_isLetter_of_isDigit digit⟩
    · exact ⟨rfl,rfl⟩
  simp [start,plain,first]

theorem Lexer.foldlM_number {text : List Char} (numeric : ∀ char ∈ text, isNumeric char = true)
    (earlier : List Token) (chars : List Char) :
    text.foldlM step ⟨earlier,.number chars⟩ = some ⟨earlier,.number (text.reverse ++ chars)⟩ := by
  induction text generalizing chars with
  | nil => rfl
  | cons char text ih =>
    have one : step ⟨earlier,.number chars⟩ char = some ⟨earlier,.number (char :: chars)⟩ := by
      simp [step,numeric char]
    rw [List.foldlM_cons,one,List.reverse_cons,List.append_assoc]
    exact ih (fun other member => numeric other (List.mem_cons_of_mem _ member)) _

theorem Reads.literal {literal : Literal} (proper : literal.Proper) {rest : List Char}
    {tokens : List Token} (ends : Ends rest) (reads : Reads rest tokens) :
    Reads (literal.spelled ++ rest) (.number literal :: tokens) := by
  intro earlier
  obtain ⟨first,others,shape,leading⟩ := Literal.spelled_cons proper
  have numeric := Literal.spelled_numeric proper
  have read : literal.spelled.foldlM Lexer.step ⟨earlier,.between⟩ =
      some ⟨earlier,.number literal.spelled.reverse⟩ := by
    have step : Lexer.step ⟨earlier,.between⟩ first = some ⟨earlier,.number [first]⟩ :=
      Lexer.start_number leading earlier
    rw [shape] at numeric ⊢
    rw [List.foldlM_cons,step,List.reverse_cons]
    exact Lexer.foldlM_number (fun char member => numeric char (List.mem_cons_of_mem _ member)) _ _
  rw [Lexer.run_append read]
  apply complete _ _ ends reads
  · simp [Lexer.finish,Literal.ofChars?_spelled proper]
  · intro char notNumeric _
    simp [Lexer.step,notNumeric,Literal.ofChars?_spelled proper]

end Numbers

section Strings

theorem quotedChar_read (char : Char) (earlier : List Token) (units : List Nat) :
    (quotedChar char).foldlM Lexer.step ⟨earlier,.string units⟩ =
      some ⟨earlier,.string (char.toNat :: units)⟩ := by
  unfold quotedChar
  split
  case h_8 notQuote notBackslash _ _ _ _ _ =>
    split
    · rename_i control
      have high := Text.Hex.value?_digitChar (char.toNat / 16) (by omega)
      have low := Text.Hex.value?_digitChar (char.toNat % 16) (by omega)
      have zero : Text.Hex.value? '0' = some 0 := rfl
      have whole : char.toNat / 16 * 16 + char.toNat % 16 = char.toNat := Nat.div_add_mod' _ _
      simp [Lexer.step,Lexer.inString,zero,high,low,whole]
    · rename_i printed
      have kept : Lexer.inString earlier units char =
          some ⟨earlier,.string (char.toNat :: units)⟩ := by
        rw [Lexer.inString,if_neg notQuote,if_neg notBackslash,if_neg printed]
      simp [Lexer.step,kept]
  all_goals rfl

theorem foldlM_quotedChars (chars : List Char) (earlier : List Token) (units : List Nat) :
    (chars.flatMap quotedChar).foldlM Lexer.step ⟨earlier,.string units⟩ =
      some ⟨earlier,.string ((chars.map Char.toNat).reverse ++ units)⟩ := by
  induction chars generalizing units with
  | nil => rfl
  | cons char chars ih =>
    rw [List.flatMap_cons,List.foldlM_append,quotedChar_read,Option.bind_eq_bind,Option.bind_some,
      ih,List.map_cons,List.reverse_cons,List.append_assoc,List.singleton_append]

theorem Reads.quoted (text : String) {rest : List Char} {tokens : List Token}
    (reads : Reads rest tokens) : Reads (quoted text ++ rest) (.string (some text) :: tokens) := by
  intro earlier
  have later := reads (.string (some text) :: earlier)
  rw [List.reverse_cons,List.append_assoc,List.singleton_append] at later
  have opened : Lexer.step ⟨earlier,.between⟩ '"' = some ⟨earlier,.string []⟩ := rfl
  have token : Token.ofUnits (text.toList.map Char.toNat) = .string (some text) := by
    simp [Token.ofUnits,Text.ofUnits?_toNat]
  have closed : Lexer.step ⟨earlier,.string (text.toList.map Char.toNat).reverse⟩ '"' =
      some ⟨.string (some text) :: earlier,.between⟩ := by
    simp [Lexer.step,Lexer.inString,token]
  have inside := foldlM_quotedChars text.toList earlier []
  rw [List.append_nil] at inside
  rw [Json.quoted,List.cons_append,List.cons_append,List.append_assoc,Lexer.run_cons,opened]
  change Lexer.run ⟨earlier,.string []⟩ _ = _
  rw [Lexer.run_append inside,List.singleton_append,Lexer.run_cons,closed]
  exact later

end Strings

end Json

end MavPayload
