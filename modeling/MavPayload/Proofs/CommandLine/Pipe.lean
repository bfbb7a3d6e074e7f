import MavPayload.CommandLine.Run
import MavPayload.Proofs.Dialect.Construction
import MavPayload.Proofs.Message.Finite
import MavPayload.Proofs.Text.Blank
import MavPayload.Proofs.Text.Hex

/-! What one command prints as the input of another. The line of an encoded message is a
payload as it may be typed, and the document that it is decoded to says what the wire has
carried of the message. -/
namespace MavPayload

namespace CommandLine

theorem digit_typed (value : Nat) (small : value < 16) :
    isHexSeparator (Text.Hex.digit value) = false ∧ Text.isBlank (Text.Hex.digit value) = false ∧
      Text.Hex.digit value ≠ 'x' ∧ Text.Hex.digit value ≠ 'X' := by
  revert value
  decide

theorem filter_spaced (bytes : List UInt8) :
    (Text.Hex.spaced bytes).filter (fun char => !isHexSeparator char) = Text.Hex.encode bytes := by
  have whole (byte : UInt8) :
      (Text.Hex.pair byte).filter (fun char => !isHexSeparator char) = Text.Hex.pair byte := by
    rw [Text.Hex.pair,List.filter_cons_of_pos,List.filter_cons_of_pos,List.filter_nil]
    · simp [digit_typed _ (Text.Hex.low_lt byte)]
    · simp [digit_typed _ (Text.Hex.high_lt byte)]
  have apart : isHexSeparator ' ' = true := rfl
  cases bytes with
  | nil => rfl
  | cons first rest =>
    induction rest generalizing first with
    | nil => simp [Text.Hex.spaced,List.intercalate,Text.Hex.encode,whole]
    | cons second rest ih =>
      rw [Text.Hex.spaced_cons,List.filter_append,whole,List.filter_cons_of_neg (by simp [apart]),ih]
      rfl

theorem hexDigits_spaced (bytes : List UInt8) {blanks : List Char}
    (blank : ∀ char ∈ blanks, Text.isBlank char = true) :
    hexDigits (String.ofList (Text.Hex.spaced bytes ++ blanks)) = Text.Hex.encode bytes := by
  rw [← filter_spaced bytes,hexDigits,String.toList_ofList]
  cases bytes with
  | nil =>
    have nothing : Text.Hex.spaced [] = [] := rfl
    rw [nothing,Text.trim_append_blanks (by simp) (by simp) blank]
  | cons first rest =>
    obtain ⟨⟨back,begins⟩,front,value,small,ends⟩ := Text.Hex.spaced_ends first rest
    rw [Text.trim_append_blanks _ _ blank]
    · -- The second digit is no mark of base sixteen.
      have unmarked (mark : Char) (others : List Char)
          (same : Text.Hex.spaced (first :: rest) = '0' :: mark :: others) :
          Text.Hex.digit (first.toNat % 16) = mark := by
        rw [begins,Text.Hex.pair] at same
        exact (List.cons.inj (List.cons.inj same).2).1
      obtain ⟨_,_,small,capital⟩ := digit_typed _ (Text.Hex.low_lt first)
      split
      · rename_i others same
        exact absurd (unmarked _ _ same) small
      · rename_i others same
        exact absurd (unmarked _ _ same) capital
      · rfl
    · rw [begins]
      rintro char ⟨⟩
      exact (digit_typed _ (Text.Hex.high_lt first)).2.1
    · rw [ends,List.getLast?_append]
      rintro char ⟨⟩
      exact (digit_typed _ small).2.1

theorem parsePayload_spaced (bytes : List UInt8) {blanks : List Char}
    (blank : ∀ char ∈ blanks, Text.isBlank char = true) :
    parsePayload (String.ofList (Text.Hex.spaced bytes ++ blanks)) = .ok bytes := by
  rw [parsePayload,hexDigits_spaced bytes blank,Text.Hex.decode_encode]

theorem parsePayload_line {bytes : List UInt8} {typed : String}
    (line : typed = String.ofList (Text.Hex.spaced bytes) ++ "\n" ∨
      typed ++ "\n" = String.ofList (Text.Hex.spaced bytes) ++ "\n") :
    parsePayload typed = .ok bytes := by
  rcases line with rfl | cut
  · have whole : String.ofList (Text.Hex.spaced bytes) ++ "\n" =
        String.ofList (Text.Hex.spaced bytes ++ ['\n']) := String.ofList_append.symm
    rw [whole]
    exact parsePayload_spaced bytes (List.forall_mem_singleton.mpr rfl)
  · have chars := congrArg String.toList cut
    rw [String.toList_append,String.toList_append,List.append_cancel_right_eq,String.toList_ofList]
      at chars
    have parsed := parsePayload_spaced bytes (List.forall_mem_nil _)
    rwa [List.append_nil,← chars,String.ofList_toList] at parsed

theorem ofText?_render (isPretty : Bool) {json : Json} (fits : json.nesting ≤ Json.maxDepth) :
    Json.ofText? (render isPretty json) = some json := by
  have lineEnd : ∀ char ∈ ['\n'], Json.isBlank char = true := by simp [Json.isBlank]
  have text : render isPretty json = String.ofList
      (Json.print (if isPretty then .pretty else .compact) 0 json ++ ['\n']) := by
    cases isPretty <;> exact String.ofList_append.symm
  rw [text]
  cases isPretty with
  | true => exact Json.ofText?_print_blanks Json.Spacing.pretty_isBlank fits lineEnd
  | false => exact Json.ofText?_print_blanks Json.Spacing.compact_isBlank fits lineEnd

theorem ofError_ok_iff {α : Type} {result : Except Error α} {value : α} :
    ofError result = .ok value ↔ result = .ok value := by
  cases result <;> simp [ofError]

theorem during_ok_iff {α : Type} {activity : String} {result : Result α} {value : α} :
    during activity result = .ok value ↔ result = .ok value := by
  cases result <;> simp [during]

end CommandLine

namespace Dialect

theorem encode_ok {dialect : Dialect} {message : Message} {version : Version}
    {payload : List UInt8} (encoded : dialect.encode message version = .ok payload) :
    message.encode version = .ok payload := by
  obtain ⟨layout,_,known⟩ := except_bind_ok_iff.mp encoded
  split at known
  · exact known
  · cases known

end Dialect

namespace CommandLine

variable {dialect : Dialect} {layout : Layout} {version : Version} {key : String}

theorem encodeText_ok {json line : String}
    (printed : encodeText dialect layout version json = .ok line) :
    ∃ message payload, Message.unmarshal { layout } json = .ok message ∧
      message.encode version = .ok payload ∧
      line = String.ofList (Text.Hex.spaced payload) ++ "\n" := by
  obtain ⟨message,read,printed⟩ := except_bind_ok_iff.mp printed
  obtain ⟨payload,encoded,printed⟩ := except_bind_ok_iff.mp printed
  refine ⟨message,payload,ofError_ok_iff.mp (during_ok_iff.mp read),
    Dialect.encode_ok (ofError_ok_iff.mp encoded),?_⟩
  exact (Except.ok.inj printed).symm

theorem decodeText_ok (isPretty : Bool) {typed : String} {payload : List UInt8}
    {received : Message} {document : Json} (read : parsePayload typed = .ok payload)
    (decoded : Message.decode layout payload version = .ok received)
    (written : received.toJson = .ok document) :
    decodeText layout version isPretty typed = .ok (render isPretty document) := by
  apply except_bind_ok_iff.mpr
  refine ⟨payload,read,except_bind_ok_iff.mpr ⟨received,ofError_ok_iff.mpr decoded,?_⟩⟩
  apply except_bind_ok_iff.mpr
  exact ⟨document,ofError_ok_iff.mpr written,rfl⟩

theorem lookup_ok (found : lookup dialect key = .ok layout) :
    (∃ id, dialect.byId? id = some layout) ∨ ∃ name, dialect.byName? name = some layout := by
  unfold lookup at found
  split at found
  · rename_i id _
    cases held : dialect.byId? id with
    | some other =>
      rw [held] at found
      cases found
      exact Or.inl ⟨id,held⟩
    | none =>
      rw [held] at found
      cases found
  · generalize String.ofList (key.toList.map Char.toUpper) = name at found
    cases held : dialect.byName? name with
    | some other =>
      rw [held] at found
      cases found
      exact Or.inr ⟨name,held⟩
    | none =>
      rw [held] at found
      cases found

theorem lookup_lays {name : String} {number : Nat} {definitions : List MessageDefinition}
    (accepted : Dialect.ofDefinitions name number definitions = .ok dialect)
    (found : lookup dialect key = .ok layout) : ∃ specs, layout.Lays specs := by
  have answers := Dialect.answersFor accepted
  obtain ⟨definition,own⟩ : ∃ definition : MessageDefinition, definition.layout = .ok layout := by
    rcases lookup_ok found with ⟨id,held⟩ | ⟨name,held⟩
    · obtain ⟨definition,_,_,own⟩ := (answers.byId id layout).mp held
      exact ⟨definition,own⟩
    · obtain ⟨definition,_,_,own⟩ := (answers.byName name layout).mp held
      exact ⟨definition,own⟩
  exact ⟨definition.fields,(Layout.build_ok_iff.mp own).2.2⟩

section

variable (host : Host Id) (configuration : Configuration) (operand : String)

theorem readOperand_bind (found : Result Layout) (use : Layout → String → Result String) :
    ((liftM found : ExceptT Causes Id Layout) >>= fun layout => readOperand host operand >>=
        fun text => (liftM (use layout text) : ExceptT Causes Id String)) =
      (found >>= fun layout => (readOperand host operand).run >>= fun text => use layout text) := by
  cases found with
  | error causes => rfl
  | ok layout =>
    generalize readOperand host operand = read
    cases read <;> rfl

theorem answer_encode : answer host configuration dialect (.encode key operand) =
    (lookup dialect key >>= fun layout => (readOperand host operand).run >>= fun json =>
      encodeText dialect layout configuration.version json) :=
  readOperand_bind host operand (lookup dialect key) fun layout json =>
    encodeText dialect layout configuration.version json

theorem answer_decode : answer host configuration dialect (.decode key operand) =
    (lookup dialect key >>= fun layout => (readOperand host operand).run >>= fun payload =>
      decodeText layout configuration.version configuration.isPretty payload) :=
  readOperand_bind host operand (lookup dialect key) fun layout payload =>
    decodeText layout configuration.version configuration.isPretty payload

end

/-- What an encoded message is printed as may be typed, or be the input, with the end of its
line or without. It is decoded to a document that gives a new message the wire form of the
message that was encoded. -/
theorem answer_decode_encode {name : String} {number : Nat} {definitions : List MessageDefinition}
    (accepted : Dialect.ofDefinitions name number definitions = .ok dialect) {host : Host Id}
    {sending : Configuration} {operand line : String}
    (printed : answer host sending dialect (.encode key operand) = Except.ok line) :
    ∃ layout json message, lookup dialect key = .ok layout ∧
      readOperand host operand = Except.ok json ∧
      Message.unmarshal { layout } json = .ok message ∧
      ∀ (other : Host Id) (receiving : Configuration) (payload typed : String),
        receiving.version = sending.version → readOperand other payload = Except.ok typed →
        typed = line ∨ typed ++ "\n" = line →
        ∃ document back,
          answer other receiving dialect (.decode key payload) = Except.ok document ∧
          Message.unmarshal { layout } document = .ok back ∧
          back.WireFormOf message sending.version := by
  rw [answer_encode] at printed
  obtain ⟨layout,found,printed⟩ := except_bind_ok_iff.mp printed
  obtain ⟨json,read,printed⟩ := except_bind_ok_iff.mp printed
  obtain ⟨message,bytes,unmarshalled,encoded,rfl⟩ := encodeText_ok printed
  refine ⟨layout,json,message,found,read,unmarshalled,?_⟩
  intro other receiving payload typed same typedRead typedLine
  obtain ⟨specs,lays⟩ := lookup_lays accepted found
  obtain ⟨value,_,assigned⟩ := Message.unmarshal_ok_iff.mp unmarshalled
  obtain ⟨sent,received,document,back,again,decoded,written,shallow,reads,arrived⟩ :=
    Message.assign_relayed lays assigned sending.version
  -- The message has one payload, so the one that was printed is the one that arrives.
  cases encoded.symm.trans again
  refine ⟨render receiving.isPretty document,back,?_,?_,arrived⟩
  · rw [answer_decode]
    refine except_bind_ok_iff.mpr ⟨layout,found,except_bind_ok_iff.mpr ⟨typed,typedRead,?_⟩⟩
    rw [← same] at decoded
    exact decodeText_ok receiving.isPretty (parsePayload_line typedLine) decoded written
  · exact Message.unmarshal_ok_iff.mpr ⟨document,ofText?_render _ shallow,reads⟩

/-- A text that is cut inside a character, a number that is not given and octets of which
one is missing. The line is the input of the second command. -/
theorem answer_decode_encode_cut :
    let specs : List FieldSpec := [⟨"label",.char,false,3,false⟩,
      ⟨"count",.numeric .uint16,false,0,false⟩,⟨"gains",.numeric .uint8,false,2,true⟩]
    let layout : Layout := ⟨"CUT",7,Layout.wireOrder (Layout.placed specs)⟩
    let dialect : Dialect := ⟨"cut",1,⟨[(7,layout)],[("CUT",7)]⟩⟩
    let host (input : String) : Host Id := ⟨fun _ => .error "",.ok input,fun _ _ => .error ""⟩
    let text := "\x7b\"label\":\"a€\",\"gains\":\"BQ==\"\x7d"
    let line := "00 00 61 e2 82 05\n"
    Dialect.ofDefinitions "cut" 1 [⟨7,"CUT",specs⟩] = .ok dialect ∧
      answer (host text) {} dialect (.encode "cut" "-") = Except.ok line ∧
      ∃ document back, answer (host line) {} dialect (.decode "cut" "-") = Except.ok document ∧
        Message.unmarshal { layout } document = .ok back ∧
        back.get? "label" = some (.text "a\uFFFD") ∧
        back.get? "count" = some (.number .uint16 0) ∧
        back.get? "gains" = some (.array [.number .uint8 5,.number .uint8 0]) := by
  intro specs layout dialect host text line
  have accepted : Dialect.ofDefinitions "cut" 1 [⟨7,"CUT",specs⟩] = .ok dialect := rfl
  have encoded : encodeText dialect layout .v2 text = .ok line := by decide +kernel
  have printed : answer (host text) {} dialect (.encode "cut" "-") = Except.ok line := by
    rw [answer_encode]
    exact encoded
  have given : Message.unmarshal { layout } text =
      .ok ⟨layout,[("gains",.array [.number .uint8 5]),("label",.text "a€")]⟩ := by
    let json := Json.object [("label",.string "a€"),("gains",.string "BQ==")]
    have same : text = json.compact := by decide +kernel
    have parsed : Json.ofText? text = some json := by
      rw [same]
      exact Json.ofText?_print Json.Spacing.compact_isBlank (by decide)
    exact Message.unmarshal_ok_iff.mpr ⟨json,parsed,rfl⟩
  obtain ⟨_,_,message,found,read,unmarshalled,pipe⟩ := answer_decode_encode accepted printed
  cases found
  cases read
  cases given.symm.trans unmarshalled
  obtain ⟨document,back,decoded,again,arrived⟩ :=
    pipe (host line) {} "-" line rfl rfl (Or.inl rfl)
  have cut : CharBuffer.carried 3 "a€" = "a\uFFFD" := by decide +kernel
  refine ⟨accepted,printed,document,back,decoded,again,?_,?_,?_⟩
  · rw [← cut]
    exact arrived.carried ⟨⟨"label",.char,false,3,false⟩,0⟩ (by decide)
  · exact arrived.carried ⟨⟨"count",.numeric .uint16,false,0,false⟩,1⟩ (by decide)
  · exact arrived.carried ⟨⟨"gains",.numeric .uint8,false,2,true⟩,2⟩ (by decide)

end CommandLine

end MavPayload
