import MavPayload.Proofs.Json.Token

/-! The tokens of a value. Its text has them in every spacing that adds nothing but
blanks. -/
namespace MavPayload.Json

mutual

/-- The tokens of a value. -/
def tokens : Json → List Token
  | .null => [.null]
  | .bool value => [.bool value]
  | .number value => [.number value.literal]
  | .string text => [.string (some text)]
  | .array [] => [.openArray,.closeArray]
  | .array (first :: rest) => .openArray :: tokens first ++ itemTokens rest ++ [.closeArray]
  | .object [] => [.openObject,.closeObject]
  | .object ((key,first) :: rest) =>
    .openObject :: .string (some key) :: .colon :: tokens first ++ entryTokens rest ++
      [.closeObject]

def itemTokens : List Json → List Token
  | [] => []
  | item :: rest => .comma :: tokens item ++ itemTokens rest

def entryTokens : List (String × Json) → List Token
  | [] => []
  | (key,item) :: rest =>
    .comma :: .string (some key) :: .colon :: tokens item ++ entryTokens rest

end

/-- Whether a spacing adds nothing but blanks. -/
structure Spacing.IsBlank (spacing : Spacing) : Prop where
  lineBreak : ∀ depth, ∀ char ∈ spacing.lineBreak depth, Json.isBlank char = true
  afterColon : ∀ char ∈ spacing.afterColon, Json.isBlank char = true

theorem Spacing.compact_isBlank : Spacing.compact.IsBlank :=
  ⟨by simp [compact],by simp [compact]⟩

theorem Spacing.pretty_isBlank : Spacing.pretty.IsBlank where
  lineBreak depth char member := by
    rcases List.mem_cons.mp member with rfl | space
    · rfl
    · rw [(List.mem_replicate.mp space).2]
      rfl
  afterColon char member := by
    rw [List.mem_singleton.mp member]
    rfl

theorem Ends.blanks {text rest : List Char} (blank : ∀ char ∈ text, isBlank char = true)
    (ends : Ends rest) : Ends (text ++ rest) := by
  cases text with
  | nil => exact ends
  | cons first text =>
    rintro char ⟨⟩
    have blank := blank first (by simp)
    simp only [isBlank,Bool.or_eq_true,beq_iff_eq] at blank
    rcases blank with ((rfl | rfl) | rfl) | rfl <;> exact ⟨rfl,rfl⟩

section Print

variable {spacing : Spacing}

theorem Ends.punctuation {char : Char} {rest : List Char} (numeric : isNumeric char = false)
    (letter : isLetter char = false) : Ends (char :: rest) := by
  rintro char ⟨⟩
  exact ⟨numeric,letter⟩

theorem printItems_ends (depth : Nat) (items : List Json) {rest : List Char} (ends : Ends rest) :
    Ends (printItems spacing depth items ++ rest) := by
  cases items with
  | nil => simpa [printItems] using ends
  | cons item items =>
    rw [printItems]
    exact .punctuation rfl rfl

theorem printEntries_ends (depth : Nat) (entries : List (String × Json)) {rest : List Char}
    (ends : Ends rest) : Ends (printEntries spacing depth entries ++ rest) := by
  cases entries with
  | nil => simpa [printEntries] using ends
  | cons entry entries =>
    obtain ⟨key,item⟩ := entry
    rw [printEntries]
    exact .punctuation rfl rfl

variable (blank : spacing.IsBlank)
include blank

theorem Reads.keyed (key : String) {rest : List Char} {after : List Token}
    (reads : Reads rest after) : Reads (Json.quoted key ++ ':' :: (spacing.afterColon ++ rest))
      (.string (some key) :: .colon :: after) :=
  .quoted key (.single (fun _ => rfl) (.blanks blank.afterColon reads))

mutual

theorem print_reads {rest : List Char} {after : List Token} (depth : Nat) :
    (json : Json) → Ends rest → Reads rest after →
      Reads (print spacing depth json ++ rest) (tokens json ++ after)
  | .null,ends,reads => by
    rw [print,tokens]
    exact .word (fun _ => rfl) rfl ends reads
  | .bool true,ends,reads => by
    rw [print,tokens]
    exact .word (fun _ => rfl) rfl ends reads
  | .bool false,ends,reads => by
    rw [print,tokens]
    exact .word (fun _ => rfl) rfl ends reads
  | .number value,ends,reads => by
    rw [print,tokens,← value.literal_spelled]
    exact .literal value.literal_proper ends reads
  | .string text,_,reads => by
    rw [print,tokens]
    exact .quoted text reads
  | .array [],_,reads => by
    rw [print,tokens]
    exact .single (fun _ => rfl) (.single (fun _ => rfl) reads)
  | .array (first :: items),_,reads => by
    have closed : Reads (spacing.lineBreak depth ++ ']' :: rest) (.closeArray :: after) :=
      .blanks (blank.lineBreak depth) (.single (fun _ => rfl) reads)
    have ends : Ends (spacing.lineBreak depth ++ ']' :: rest) :=
      .blanks (blank.lineBreak depth) (.punctuation rfl rfl)
    have later := printItems_reads (depth + 1) items ends closed
    have all := print_reads (depth + 1) first (printItems_ends (depth + 1) items ends) later
    rw [print,tokens]
    simp only [List.cons_append,List.append_assoc,List.nil_append]
    exact .single (fun _ => rfl) (.blanks (blank.lineBreak (depth + 1)) all)
  | .object [],_,reads => by
    rw [print,tokens]
    exact .single (fun _ => rfl) (.single (fun _ => rfl) reads)
  | .object ((key,first) :: entries),_,reads => by
    have closed : Reads (spacing.lineBreak depth ++ '\x7d' :: rest) (.closeObject :: after) :=
      .blanks (blank.lineBreak depth) (.single (fun _ => rfl) reads)
    have ends : Ends (spacing.lineBreak depth ++ '\x7d' :: rest) :=
      .blanks (blank.lineBreak depth) (.punctuation rfl rfl)
    have later := printEntries_reads (depth + 1) entries ends closed
    have value := print_reads (depth + 1) first (printEntries_ends (depth + 1) entries ends) later
    have entry := Reads.keyed blank key value
    rw [print,tokens]
    simp only [List.cons_append,List.append_assoc,List.nil_append]
    exact .single (fun _ => rfl) (.blanks (blank.lineBreak (depth + 1)) entry)

theorem printItems_reads {rest : List Char} {after : List Token} (depth : Nat) :
    (items : List Json) → Ends rest → Reads rest after →
    Reads (printItems spacing depth items ++ rest) (itemTokens items ++ after)
  | [],_,reads => by
    rw [printItems,itemTokens]
    exact reads
  | item :: items,ends,reads => by
    have later := printItems_reads depth items ends reads
    have value := print_reads depth item (printItems_ends depth items ends) later
    rw [printItems,itemTokens]
    simp only [List.cons_append,List.append_assoc]
    exact .single (fun _ => rfl) (.blanks (blank.lineBreak depth) value)

theorem printEntries_reads {rest : List Char} {after : List Token} (depth : Nat) :
    (entries : List (String × Json)) → Ends rest → Reads rest after →
    Reads (printEntries spacing depth entries ++ rest) (entryTokens entries ++ after)
  | [],_,reads => by
    rw [printEntries,entryTokens]
    exact reads
  | (key,item) :: entries,ends,reads => by
    have later := printEntries_reads depth entries ends reads
    have value := print_reads depth item (printEntries_ends depth entries ends) later
    have entry := Reads.keyed blank key value
    rw [printEntries,entryTokens]
    simp only [List.cons_append,List.append_assoc]
    exact .single (fun _ => rfl) (.blanks (blank.lineBreak depth) entry)

end

theorem tokens?_print (depth : Nat) (json : Json) {after : List Char}
    (blanks : ∀ char ∈ after, Json.isBlank char = true) :
    tokens? (print spacing depth json ++ after) = some (tokens json) := by
  have nothing : Ends [] := by simp [Ends]
  have ends : Ends (after ++ []) := .blanks blanks nothing
  have reads := print_reads blank depth json ends (.blanks blanks .nil)
  rw [List.append_nil,List.append_nil] at reads
  exact tokens?_eq_some reads

end Print

end MavPayload.Json
