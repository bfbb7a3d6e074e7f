import Mathlib.Data.List.Forall2
import Mathlib.Data.List.Nodup

/-! Lists of items: an item found by a key of its own, and steps that may fail, one for each
item. -/
namespace MavPayload

theorem find?_key_iff {α κ : Type} [BEq κ] [LawfulBEq κ] {key : α → κ} {items : List α}
    (distinct : (items.map key).Nodup) {wanted : κ} {item : α} :
    items.find? (fun item => key item == wanted) = some item ↔
      item ∈ items ∧ key item = wanted := by
  constructor
  · intro found
    exact ⟨List.mem_of_find?_eq_some found,by simpa using List.find?_some found⟩
  · rintro ⟨member,rfl⟩
    cases found : items.find? fun other => key other == key item with
    | none =>
      have missing := List.find?_eq_none.mp found item member
      simp at missing
    | some other =>
      have same : key other = key item := by simpa using List.find?_some found
      rw [List.inj_on_of_nodup_map distinct member (List.mem_of_find?_eq_some found) same.symm]

/-- Parts of known lengths can be told from what they are joined to. -/
theorem flatMap_inj {α β : Type} {first second : α → List β} {items : List α}
    (sized : ∀ item ∈ items, (first item).length = (second item).length) :
    items.flatMap first = items.flatMap second ↔ ∀ item ∈ items, first item = second item := by
  have lengths : (items.map first).map List.length = (items.map second).map List.length := by
    rw [List.map_map,List.map_map]
    exact List.map_congr_left sized
  rw [List.flatMap_def,List.flatMap_def,← List.map_inj_left,List.eq_iff_flatten_eq]
  exact ⟨fun joined => ⟨joined,lengths⟩,fun same => same.1⟩

variable {ε α β : Type}

theorem except_bind_ok_iff {first : Except ε α} {next : α → Except ε β} {result : β} :
    (first >>= next) = .ok result ↔ ∃ value, first = .ok value ∧ next value = .ok result := by
  cases first with
  | error error => simp [bind,Except.bind]
  | ok value => simp [bind,Except.bind]

theorem except_bind_error_iff {first : Except ε α} {next : α → Except ε β} {error : ε} :
    (first >>= next) = .error error ↔
      first = .error error ∨ ∃ value, first = .ok value ∧ next value = .error error := by
  cases first with
  | error other => simp [bind,Except.bind]
  | ok value => simp [bind,Except.bind]

theorem except_map_error_iff {first : Except ε α} {wrap : α → β} {error : ε} :
    first.map wrap = .error error ↔ first = .error error := by
  cases first with
  | error other => simp [Except.map]
  | ok value => simp [Except.map]

theorem except_map_ok_iff {first : Except ε α} {wrap : α → β} {result : β} :
    first.map wrap = .ok result ↔ ∃ value, first = .ok value ∧ wrap value = result := by
  cases first with
  | error error => simp [Except.map]
  | ok value => simp [Except.map]

theorem mapM_ok_iff {step : α → Except ε β} {items : List α} {results : List β} :
    items.mapM step = .ok results ↔
      List.Forall₂ (fun item result => step item = .ok result) items results := by
  induction items generalizing results with
  | nil =>
    rw [List.mapM_nil,List.forall₂_nil_left_iff]
    exact ⟨fun ok => (Except.ok.inj ok).symm,fun empty => by rw [empty]; rfl⟩
  | cons item rest ih =>
    rw [List.mapM_cons,except_bind_ok_iff]
    constructor
    · rintro ⟨first,here,later⟩
      obtain ⟨others,there,same⟩ := except_bind_ok_iff.mp later
      cases same
      exact .cons here (ih.mp there)
    · intro all
      cases all with
      | cons here there => exact ⟨_,here,except_bind_ok_iff.mpr ⟨_,ih.mpr there,rfl⟩⟩

theorem mapM_ok_mem {step : α → Except ε β} {items : List α} {results : List β}
    (ok : items.mapM step = .ok results) {result : β} (member : result ∈ results) :
    ∃ item ∈ items, step item = .ok result := by
  have all := mapM_ok_iff.mp ok
  clear ok
  induction all with
  | nil => cases member
  | cons here _ ih =>
    rcases List.mem_cons.mp member with rfl | member
    · exact ⟨_,by simp,here⟩
    · obtain ⟨item,inside,one⟩ := ih member
      exact ⟨item,List.mem_cons_of_mem _ inside,one⟩

theorem mem_mapM_ok {step : α → Except ε β} {items : List α} {results : List β}
    (ok : items.mapM step = .ok results) {item : α} (member : item ∈ items) :
    ∃ result ∈ results, step item = .ok result := by
  have all := mapM_ok_iff.mp ok
  clear ok
  induction all with
  | nil => cases member
  | cons here _ ih =>
    rcases List.mem_cons.mp member with rfl | member
    · exact ⟨_,by simp,here⟩
    · obtain ⟨result,inside,one⟩ := ih member
      exact ⟨result,List.mem_cons_of_mem _ inside,one⟩

theorem mapM_ok_of_forall {step : α → Except ε β} {items : List α}
    (each : ∀ item ∈ items, ∃ result, step item = .ok result) :
    ∃ results, items.mapM step = .ok results := by
  induction items with
  | nil => exact ⟨[],rfl⟩
  | cons item items ih =>
    obtain ⟨result,here⟩ := each item (by simp)
    obtain ⟨results,there⟩ := ih fun other member => each other (List.mem_cons_of_mem _ member)
    exact ⟨result :: results,mapM_ok_iff.mpr (.cons here (mapM_ok_iff.mp there))⟩

theorem mapM_fails {step : α → Except ε β} {items : List α} {item : α} (member : item ∈ items)
    {error : ε} (failed : step item = .error error) : ∃ first, items.mapM step = .error first := by
  cases outcome : items.mapM step with
  | error first => exact ⟨first,rfl⟩
  | ok results =>
    obtain ⟨_,_,done⟩ := mem_mapM_ok outcome member
    cases failed.symm.trans done

/-- Steps fail as the first one does that fails. -/
theorem mapM_error_iff {step : α → Except ε β} {items : List α} {error : ε} :
    items.mapM step = .error error ↔ ∃ before item after, items = before ++ item :: after ∧
      (∀ earlier ∈ before, ∃ result, step earlier = .ok result) ∧ step item = .error error := by
  induction items with
  | nil => simp [pure,Except.pure]
  | cons first rest ih =>
    rw [List.mapM_cons,except_bind_error_iff]
    constructor
    · rintro (here | ⟨result,done,later⟩)
      · exact ⟨[],first,rest,rfl,by simp,here⟩
      · rcases except_bind_error_iff.mp later with there | ⟨_,_,impossible⟩
        · obtain ⟨before,item,after,rfl,fine,failed⟩ := ih.mp there
          exact ⟨first :: before,item,after,rfl,
            List.forall_mem_cons.mpr ⟨⟨result,done⟩,fine⟩,failed⟩
        · cases impossible
    · rintro ⟨before,item,after,split,fine,failed⟩
      cases before with
      | nil =>
        cases split
        exact Or.inl failed
      | cons head before =>
        cases split
        obtain ⟨⟨result,done⟩,fine⟩ := List.forall_mem_cons.mp fine
        have there := ih.mpr ⟨before,item,after,rfl,fine,failed⟩
        exact Or.inr ⟨result,done,except_bind_error_iff.mpr (Or.inl there)⟩

/-- Of the items that have a part, the first whose step fails. -/
theorem mapM_filterMap_error_iff {γ : Type} {part : γ → Option α} {step : α → Except ε β}
    {items : List γ} {error : ε} : (items.filterMap part).mapM step = .error error ↔
      ∃ before item after, items = before ++ item :: after ∧
        (∀ earlier ∈ before, ∀ own, part earlier = some own → ∃ result, step own = .ok result) ∧
        ∃ own, part item = some own ∧ step own = .error error := by
  rw [mapM_error_iff]
  constructor
  · rintro ⟨done,own,rest,split,fine,failed⟩
    obtain ⟨front,back,rfl,rfl,remaining⟩ := List.filterMap_eq_append_iff.mp split
    obtain ⟨without,item,after,rfl,none,some,_⟩ := List.filterMap_eq_cons_iff.mp remaining
    refine ⟨front ++ without,item,after,(List.append_assoc ..).symm,?_,own,some,failed⟩
    intro earlier member other held
    rcases List.mem_append.mp member with member | member
    · exact fine other (List.mem_filterMap.mpr ⟨earlier,member,held⟩)
    · rw [none earlier member] at held
      cases held
  · rintro ⟨before,item,after,rfl,fine,own,held,failed⟩
    refine ⟨before.filterMap part,own,after.filterMap part,?_,fun other member => ?_,failed⟩
    · rw [List.filterMap_append,List.filterMap_cons_some held]
    · obtain ⟨earlier,inside,part⟩ := List.mem_filterMap.mp member
      exact fine earlier inside other part

theorem mapM_some_of_forall {step : α → Option β} {result : α → β} {items : List α}
    (each : ∀ item ∈ items, step item = some (result item)) :
    items.mapM step = some (items.map result) := by
  induction items with
  | nil => rfl
  | cons item rest ih =>
    rw [List.mapM_cons,each item (by simp),ih fun other member => each other (by simp [member])]
    rfl

theorem mapM_ok_map {κ : Type} {step : α → Except ε β} {items : List α} {results : List β}
    (ok : items.mapM step = .ok results) {before : α → κ} {after : β → κ}
    (kept : ∀ item result, step item = .ok result → after result = before item) :
    results.map after = items.map before := by
  have all := mapM_ok_iff.mp ok
  clear ok
  induction all with
  | nil => rfl
  | cons here _ ih => rw [List.map_cons,List.map_cons,kept _ _ here,ih]

end MavPayload
