import MavPayload.Proofs.Json.Printer

/-! A value that does not nest too deeply is read from its text. The tokens are followed
with the containers that are open: those of a value leave the machine after that value. -/
namespace MavPayload.Json

mutual

def document : Json → Document
  | .null => .null
  | .bool value => .bool value
  | .number value => .number value.literal
  | .string text => .string (some text)
  | .array items => .array (documents items)
  | .object entries => .object (entryDocuments entries)

def documents : List Json → List Document
  | [] => []
  | item :: rest => document item :: documents rest

def entryDocuments : List (String × Json) → List (Option String × Document)
  | [] => []
  | (key,item) :: rest => (some key,document item) :: entryDocuments rest

end

mutual

/-- How many containers of a value are open at once. -/
def nesting : Json → Nat
  | .array items => itemsNesting items + 1
  | .object entries => entriesNesting entries + 1
  | _ => 0

def itemsNesting : List Json → Nat
  | [] => 0
  | item :: rest => max (nesting item) (itemsNesting rest)

def entriesNesting : List (String × Json) → Nat
  | [] => 0
  | (_,item) :: rest => max (nesting item) (entriesNesting rest)

end

theorem entriesNesting_le {depth : Nat} {entries : List (String × Json)}
    (each : ∀ entry ∈ entries, nesting entry.2 ≤ depth) : entriesNesting entries ≤ depth := by
  induction entries with
  | nil => simp [entriesNesting]
  | cons entry entries ih =>
    have here := each entry (by simp)
    have there := ih fun other member => each other (List.mem_cons_of_mem _ member)
    rw [entriesNesting]
    exact Nat.max_le.mpr ⟨here,there⟩

section Parse

theorem arrayStart_tokens (json : Json) (outer : List Container) (after : List Token) :
    (tokens json ++ after).foldlM Parser.step (.arrayStart outer) =
      (tokens json ++ after).foldlM Parser.step (.awaitValue (.array [] :: outer)) := by
  cases json with
  | array items => cases items <;> rfl
  | object entries => cases entries <;> rfl
  | _ => rfl

mutual

theorem parse_tokens (outer : List Container) (after : List Token) : (json : Json) →
    (tokens json ++ after).foldlM Parser.step (.awaitValue outer) =
      after.foldlM Parser.step (.after (document json) outer)
  | .null => rfl
  | .bool _ => rfl
  | .number _ => rfl
  | .string _ => rfl
  | .array [] => rfl
  | .array (first :: items) => by
    have opened := parse_tokens (.array [] :: outer) (itemTokens items ++ .closeArray :: after) first
    have later := parse_itemTokens (document first) [] outer after items
    rw [tokens]
    simp only [List.cons_append,List.append_assoc,List.nil_append]
    rw [List.foldlM_cons]
    -- At the start of an array a value is read as it is where one has to follow.
    change List.foldlM Parser.step (.arrayStart outer) _ = _
    rw [arrayStart_tokens,opened,later,document,documents]
    rfl
  | .object [] => rfl
  | .object ((key,first) :: entries) => by
    have opened := parse_tokens (.object [] (some key) :: outer)
      (entryTokens entries ++ .closeObject :: after) first
    have later := parse_entryTokens (document first) (some key) [] outer after entries
    rw [tokens]
    simp only [List.cons_append,List.append_assoc,List.nil_append]
    rw [List.foldlM_cons]
    change List.foldlM Parser.step (.awaitValue (.object [] (some key) :: outer)) _ = _
    rw [opened,later,document,entryDocuments]
    rfl

theorem parse_itemTokens (last : Document) (before : List Document) (outer : List Container)
    (after : List Token) : (items : List Json) →
    (itemTokens items ++ .closeArray :: after).foldlM Parser.step
        (.after last (.array before :: outer)) =
      after.foldlM Parser.step (.after (.array (before.reverse ++ last :: documents items)) outer)
  | [] => by
    rw [documents,← List.reverse_cons]
    rfl
  | item :: items => by
    have value := parse_tokens (.array (last :: before) :: outer)
      (itemTokens items ++ .closeArray :: after) item
    have later := parse_itemTokens (document item) (last :: before) outer after items
    rw [itemTokens]
    simp only [List.cons_append,List.append_assoc]
    rw [List.foldlM_cons]
    change List.foldlM Parser.step (.awaitValue (.array (last :: before) :: outer)) _ = _
    rw [value,later,documents,List.reverse_cons,List.append_assoc,List.singleton_append]

theorem parse_entryTokens (last : Document) (name : Option String)
    (before : List (Option String × Document)) (outer : List Container) (after : List Token) :
    (entries : List (String × Json)) →
    (entryTokens entries ++ .closeObject :: after).foldlM Parser.step
        (.after last (.object before name :: outer)) =
      after.foldlM Parser.step
        (.after (.object (before.reverse ++ (name,last) :: entryDocuments entries)) outer)
  | [] => by
    rw [entryDocuments,← List.reverse_cons]
    rfl
  | (key,item) :: entries => by
    have value := parse_tokens (.object ((name,last) :: before) (some key) :: outer)
      (entryTokens entries ++ .closeObject :: after) item
    have later := parse_entryTokens (document item) (some key) ((name,last) :: before) outer after
      entries
    rw [entryTokens]
    simp only [List.cons_append,List.append_assoc]
    rw [List.foldlM_cons]
    change List.foldlM Parser.step (.awaitValue (.object ((name,last) :: before) (some key) ::
      outer)) _ = _
    rw [value,later,entryDocuments,List.reverse_cons,List.append_assoc,List.singleton_append]

end

end Parse

mutual

theorem value?_document (depth : Nat) : (json : Json) → nesting json ≤ depth →
    (document json).value? depth = some json
  | .null,_ => by simp [document,Document.value?]
  | .bool _,_ => by simp [document,Document.value?]
  | .number value,_ => by simp [document,Document.value?,Number.ofLiteral?_literal]
  | .string _,_ => by simp [document,Document.value?]
  | .array items,fits => by
    rw [nesting] at fits
    obtain ⟨depth,rfl⟩ := Nat.exists_eq_add_of_le' (Nat.le_of_add_left_le fits)
    rw [document,Document.value?,values?_documents depth items (by omega)]
    rfl
  | .object entries,fits => by
    rw [nesting] at fits
    obtain ⟨depth,rfl⟩ := Nat.exists_eq_add_of_le' (Nat.le_of_add_left_le fits)
    rw [document,Document.value?,entries?_entryDocuments depth entries (by omega)]
    rfl

theorem values?_documents (depth : Nat) : (items : List Json) → itemsNesting items ≤ depth →
    values? depth (documents items) = some items
  | [],_ => by simp [documents,values?]
  | item :: items,fits => by
    rw [itemsNesting] at fits
    rw [documents,values?,value?_document depth item (by omega),
      values?_documents depth items (by omega)]
    rfl

theorem entries?_entryDocuments (depth : Nat) : (entries : List (String × Json)) →
    entriesNesting entries ≤ depth → entries? depth (entryDocuments entries) = some entries
  | [],_ => by simp [entryDocuments,entries?]
  | (key,item) :: entries,fits => by
    rw [entriesNesting] at fits
    rw [entryDocuments,entries?,value?_document depth item (by omega),
      entries?_entryDocuments depth entries (by omega)]
    rfl

end

/-- A value is read from its text in every spacing, whatever blanks follow. -/
theorem ofText?_print_blanks {spacing : Spacing} (blank : spacing.IsBlank) {json : Json}
    (fits : nesting json ≤ maxDepth) {after : List Char}
    (blanks : ∀ char ∈ after, isBlank char = true) :
    ofText? (String.ofList (print spacing 0 json ++ after)) = some json := by
  have parsed := parse_tokens [] [] json
  rw [List.append_nil] at parsed
  rw [ofText?,String.toList_ofList,Document.ofChars?,tokens?_print blank 0 json blanks]
  simp only [Option.bind_eq_bind,Option.bind_some,parsed]
  exact value?_document maxDepth json fits

theorem ofText?_print {spacing : Spacing} (blank : spacing.IsBlank) {json : Json}
    (fits : nesting json ≤ maxDepth) :
    ofText? (String.ofList (print spacing 0 json)) = some json := by
  have read := ofText?_print_blanks blank fits (List.forall_mem_nil _)
  rwa [List.append_nil] at read

end MavPayload.Json
