import MavPayload.Frame
import Mathlib.Data.List.TakeWhile

/-! A payload on its way between two peers. The zeros that the second generation leaves
out are exactly those that the receiver fills in again. -/
namespace MavPayload

theorem withoutTrailingZeros_zeros (payload : List UInt8) :
    withoutTrailingZeros payload ++
      List.replicate (payload.length - (withoutTrailingZeros payload).length) 0 = payload := by
  have zeros : payload.reverse.takeWhile (· == 0) =
      List.replicate (payload.reverse.takeWhile (· == 0)).length 0 := by
    rw [List.eq_replicate_iff]
    exact ⟨rfl,fun byte member => by simpa using List.mem_takeWhile_imp member⟩
  have joined : payload.reverse.takeWhile (· == 0) ++ payload.reverse.dropWhile (· == 0) =
      payload.reverse := List.takeWhile_append_dropWhile
  have parts : withoutTrailingZeros payload ++ (payload.reverse.takeWhile (· == 0)).reverse =
      payload := by
    rw [withoutTrailingZeros,← List.reverse_append,joined,List.reverse_reverse]
  have count : payload.length - (withoutTrailingZeros payload).length =
      (payload.reverse.takeWhile (· == 0)).length := by
    have lengths := congrArg List.length parts
    rw [List.length_append,List.length_reverse] at lengths
    omega
  rw [zeros,List.reverse_replicate,← count] at parts
  exact parts

theorem withoutTrailingZeros_length_le (payload : List UInt8) :
    (withoutTrailingZeros payload).length ≤ payload.length := by
  have lengths := congrArg List.length (withoutTrailingZeros_zeros payload)
  rw [List.length_append] at lengths
  omega

theorem withoutTrailingZeros_append_zeros (payload : List UInt8) (count : Nat) :
    withoutTrailingZeros (payload ++ List.replicate count 0) = withoutTrailingZeros payload := by
  induction count with
  | zero => simp
  | succ count ih =>
    rw [List.replicate_succ',← List.append_assoc,withoutTrailingZeros,List.reverse_append]
    exact ih

theorem sent_append_zeros (payload : List UInt8) (count : Nat) (nonempty : payload ≠ []) :
    sent .v2 (payload ++ List.replicate count 0) = sent .v2 payload := by
  obtain ⟨first,rest,rfl⟩ := List.exists_cons_of_ne_nil nonempty
  simp only [sent,withoutTrailingZeros_append_zeros]
  cases withoutTrailingZeros (first :: rest) <;> rfl

/-- What has been sent is a beginning of the full payload, and the rest of that is zeros. -/
theorem sent_zeros (version : Version) (payload : List UInt8) :
    (sent version payload).length ≤ payload.length ∧
      sent version payload ++ List.replicate (payload.length - (sent version payload).length) 0 =
        payload := by
  cases version with
  | v1 => simp [sent]
  | v2 =>
    have whole := withoutTrailingZeros_zeros payload
    have shorter := withoutTrailingZeros_length_le payload
    simp only [sent]
    cases kept : withoutTrailingZeros payload with
    | nil =>
      rw [kept,List.nil_append,List.length_nil,Nat.sub_zero] at whole
      simp only [List.length_take]
      refine ⟨Nat.min_le_right _ _,?_⟩
      rw [← whole,List.length_replicate,List.take_replicate,List.replicate_append_replicate]
      congr 1
      omega
    | cons first rest =>
      rw [kept] at whole shorter
      exact ⟨shorter,whole⟩

theorem sent_inj {version : Version} {first second : List UInt8}
    (length : first.length = second.length) :
    sent version first = sent version second ↔ first = second := by
  refine ⟨fun same => ?_,fun same => by rw [same]⟩
  rw [← (sent_zeros version first).2,← (sent_zeros version second).2,same,length]

namespace Layout

theorem receive_sent {layout : Layout} {version : Version} {payload : List UInt8}
    (full : payload.length = layout.payloadSize version) :
    layout.receive version (sent version payload) = .ok payload := by
  cases version with
  | v1 => simp only [receive,sent,full,if_true]
  | v2 =>
    obtain ⟨shorter,whole⟩ := sent_zeros .v2 payload
    rw [full] at shorter whole
    simp only [receive]
    rw [List.take_of_length_le shorter,whole]

theorem receive_length {layout : Layout} {version : Version} {payload full : List UInt8}
    (received : layout.receive version payload = .ok full) :
    full.length = layout.payloadSize version := by
  cases version with
  | v1 =>
    simp only [receive] at received
    split at received
    · cases received
      assumption
    · cases received
  | v2 =>
    simp only [receive] at received
    cases received
    rw [List.length_append,List.length_take,List.length_replicate]
    omega

/-- The only reason to refuse a payload is its length in the first generation. -/
theorem receive_error {layout : Layout} {version : Version} {payload : List UInt8} {error : Error}
    (refused : layout.receive version payload = .error error) :
    version = .v1 ∧ payload.length ≠ layout.payloadSize .v1 ∧
      error = .sizeMismatch layout.name (layout.payloadSize .v1) payload.length := by
  cases version with
  | v1 =>
    simp only [receive] at refused
    split at refused
    · cases refused
    · rename_i different
      cases refused
      exact ⟨rfl,different,rfl⟩
  | v2 =>
    simp only [receive] at refused
    cases refused

end Layout

end MavPayload
