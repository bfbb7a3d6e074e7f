import MavPayload.Proofs.Field
import MavPayload.Proofs.Frame

/-! What the second generation sends of a payload is as short as can be. Any octets that the
receiver takes for the payload begin with those that are sent, so no others are as short. -/
namespace MavPayload

/-- Whether nothing can be left out: at most one octet is there, or the last one is no zero. -/
def Shortened (payload : List UInt8) : Prop :=
  payload.length ≤ 1 ∨ payload.getLast? ≠ some 0

theorem sent_begins (version : Version) (payload : List UInt8) :
    sent version payload <+: payload :=
  ⟨_,(sent_zeros version payload).2⟩

theorem withoutTrailingZeros_last (payload : List UInt8) :
    (withoutTrailingZeros payload).getLast? ≠ some 0 := by
  intro last
  have kept := List.head?_dropWhile_not (· == (0 : UInt8)) payload.reverse
  rw [withoutTrailingZeros,List.getLast?_reverse] at last
  simp [last] at kept

theorem sent_shortened (payload : List UInt8) : Shortened (sent .v2 payload) := by
  have last := withoutTrailingZeros_last payload
  simp only [Shortened,sent]
  cases kept : withoutTrailingZeros payload with
  | nil => exact Or.inl (List.length_take_le 1 payload)
  | cons first rest => exact Or.inr (by rwa [kept] at last)

theorem sent_eq_nil_iff {version : Version} {payload : List UInt8} :
    sent version payload = [] ↔ payload = [] := by
  constructor
  · intro nothing
    cases version with
    | v1 => exact nothing
    | v2 =>
      simp only [sent] at nothing
      split at nothing
      · simpa using nothing
      · contradiction
  · rintro rfl
    cases version <;> rfl

theorem sent_of_shortened {version : Version} {payload : List UInt8}
    (shortened : Shortened payload) : sent version payload = payload := by
  cases version with
  | v1 => rfl
  | v2 =>
    -- Only zeros have been left out, and here only a single octet may be one. It stays.
    obtain ⟨shorter,whole⟩ := sent_zeros .v2 payload
    cases left : payload.length - (sent .v2 payload).length with
    | zero => rwa [left,List.replicate_zero,List.append_nil] at whole
    | succ count =>
      rw [left,List.replicate_succ',← List.append_assoc] at whole
      have single : payload.length ≤ 1 := by
        refine shortened.resolve_right fun last => last ?_
        rw [← whole,List.getLast?_concat]
      have nothing : sent .v2 payload = [] := List.eq_nil_of_length_eq_zero (by omega)
      rw [nothing,sent_eq_nil_iff.mp nothing]

theorem sent_sent (version : Version) (payload : List UInt8) :
    sent version (sent version payload) = sent version payload := by
  cases version with
  | v1 => rfl
  | v2 => exact sent_of_shortened (sent_shortened payload)

namespace Layout

theorem payloadSize_eq_zero_iff {layout : Layout} :
    layout.payloadSize .v2 = 0 ↔ layout.fields = [] := by
  simp only [payloadSize,fieldsFor]
  cases layout.fields with
  | nil => simp [totalSize]
  | cons field rest =>
    have room := field.size_pos
    simp only [totalSize,reduceCtorEq,iff_false]
    omega

/-- Whether some octets are the fewest that a receiver of the second generation takes for a
payload. One at least has to arrive, if the layout has any. -/
structure IsShortest (layout : Layout) (payload octets : List UInt8) : Prop where
  enough : min 1 (layout.payloadSize .v2) ≤ octets.length
  received : layout.receive .v2 octets = .ok payload
  least : ∀ other, min 1 (layout.payloadSize .v2) ≤ other.length →
    layout.receive .v2 other = .ok payload → octets.length ≤ other.length

variable {layout : Layout} {payload octets : List UInt8}

/-- Whatever arrives as a payload begins with what is sent of it. -/
theorem sent_prefix_of_received (enough : min 1 (layout.payloadSize .v2) ≤ octets.length)
    (received : layout.receive .v2 octets = .ok payload) : sent .v2 payload <+: octets := by
  simp only [receive] at received
  cases received
  have kept : sent .v2 (octets.take (layout.payloadSize .v2) ++
      List.replicate (layout.payloadSize .v2 - octets.length) 0) =
      sent .v2 (octets.take (layout.payloadSize .v2)) := by
    by_cases empty : octets.take (layout.payloadSize .v2) = []
    · -- No octet is taken, so the layout has none, and none is filled in.
      have none := congrArg List.length empty
      rw [List.length_take,List.length_nil] at none
      rw [(by omega : layout.payloadSize .v2 - octets.length = 0),List.replicate_zero,
        List.append_nil]
    · exact sent_append_zeros _ _ empty
  rw [kept]
  exact (sent_begins .v2 _).trans (List.take_prefix _ _)

theorem isShortest_sent (full : payload.length = layout.payloadSize .v2) :
    layout.IsShortest payload (sent .v2 payload) where
  enough := by
    cases sends : sent .v2 payload with
    | nil =>
      rw [sent_eq_nil_iff.mp sends,List.length_nil] at full
      rw [← full]
      exact Nat.min_le_right 1 0
    | cons first rest => exact Nat.le_trans (Nat.min_le_left _ _) (Nat.le_add_left 1 _)
  received := receive_sent full
  least _ enough received := (sent_prefix_of_received enough received).length_le

theorem isShortest_iff (full : payload.length = layout.payloadSize .v2) :
    layout.IsShortest payload octets ↔ octets = sent .v2 payload := by
  constructor
  · intro shortest
    have begins := sent_prefix_of_received shortest.enough shortest.received
    have own := isShortest_sent full
    have short := shortest.least _ own.enough own.received
    exact (begins.eq_of_length_le short).symm
  · rintro rfl
    exact isShortest_sent full

/-- Of a full payload the second generation sends the only shortest octets that arrive as it,
and nothing of them can be left out when they are sent again. -/
theorem sent_unique_shortest (full : payload.length = layout.payloadSize .v2) :
    layout.receive .v2 (sent .v2 payload) = .ok payload ∧
      (∀ octets, layout.IsShortest payload octets ↔ octets = sent .v2 payload) ∧
      sent .v2 payload <+: payload ∧
      ((sent .v2 payload).length ≤ 1 ∨ (sent .v2 payload).getLast? ≠ some 0) ∧
      (sent .v2 payload = [] ↔ layout.fields = []) ∧
      ∀ octets, sent .v1 octets = octets ∧
        ∀ version, sent version (sent version octets) = sent version octets := by
  refine ⟨receive_sent full,fun octets => isShortest_iff full,sent_begins .v2 payload,
    sent_shortened payload,?_,fun octets => ⟨rfl,fun version => sent_sent version octets⟩⟩
  rw [sent_eq_nil_iff,← payloadSize_eq_zero_iff,← full,List.length_eq_zero_iff]

/-- A payload that ends inside a text is sent as far as the text goes, and one of nothing but
zeros as one of them. -/
theorem sent_unique_shortest_cut :
    let specs : List FieldSpec := [⟨"label",.char,false,3,false⟩,
      ⟨"count",.numeric .uint16,false,0,false⟩,⟨"gains",.numeric .uint8,false,2,true⟩]
    let layout : Layout := ⟨"CUT",7,wireOrder (placed specs)⟩
    build "CUT" 7 specs = .ok layout ∧ layout.payloadSize .v2 = 7 ∧
      layout.receive .v2 [0,0,97,98] = .ok [0,0,97,98,0,0,0] ∧
      (∀ octets, layout.IsShortest [0,0,97,98,0,0,0] octets ↔ octets = [0,0,97,98]) ∧
      ∀ octets, layout.IsShortest [0,0,0,0,0,0,0] octets ↔ octets = [0] := by
  intro specs layout
  have text : ([0,0,97,98,0,0,0] : List UInt8).length = layout.payloadSize .v2 := rfl
  have zeros : ([0,0,0,0,0,0,0] : List UInt8).length = layout.payloadSize .v2 := rfl
  obtain ⟨arrives,ofText,_⟩ := sent_unique_shortest text
  obtain ⟨_,ofZeros,_⟩ := sent_unique_shortest zeros
  exact ⟨rfl,rfl,arrives,ofText,ofZeros⟩

end Layout

end MavPayload
