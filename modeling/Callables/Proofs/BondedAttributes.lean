import Callables.Proofs.Fairness
import Callables.Proofs.RelocatedAttributes

namespace Callables.Bond

open Activity

variable {ρ : Relocation} {bond : Bond ρ} {p : Runtime × Runtime}

theorem joins_setInDict (h : bond.Holds p) (dict : Ref) (name : String) {value : Value}
    (known : bond.Knows p value) :
    bond.Joins id Any p (setInDict dict name value)
      (setInDict (ρ.place dict) name (ρ.value value)) := by
  apply Joins.get
  rw [(bond.relocated h).heap]
  cases found : p.1.heap.get? dict with
  | none => exact joins_pure (v := ()) h trivial
  | some o =>
    cases o with
    | dict entries =>
      have fair : (Piece.store dict (.dict entries) (.dict (entries.set name value))).Fair
          bond.minds p.1 := by
        refine ⟨found, .entries found _, fun mind => ⟨.dict _ _, .dict fun v hv => ?_⟩⟩
        rcases Dict.mem_values_set hv with rfl | hv
        · exact known mind
        · exact ((bond.sound mind h).live found).references v hv
      have stored := joins_store h fair
      rw [Relocation.object, ← Dict.set_map] at stored
      exact stored
    | tuple | module | code | ofClass | closure | function =>
      exact joins_pure (v := ()) h trivial

/-- A dict is made at the next place on either side, and set in the function it is for. -/
theorem joins_dictFor (h : bond.Holds p) {r : Ref} {f : Function} {m : Metadata}
    {field : MetadataField} (isDict : field.isDict = true)
    (here : p.1.heap.get? r = some (.function f)) (hm : f.metadata? = some m) :
    bond.Joins ρ.place (fun q dict => bond.Knows q (.object dict)) p
      (dictFor r none (Metadata.withDict field))
      (dictFor (ρ.place r) none (Metadata.withDict field)) := by
  have next : ρ.place p.1.heap.nextRef = p.2.heap.nextRef := (bond.relocated h).next 0
  have new : (Object.dict .empty).New p.1.heap := Object.new_plain rfl (by simp)
  have made : bond.Joins id
      (fun q _ => bond.Knows q (.object p.1.heap.nextRef) ∧
        q.1.heap = p.1.heap.push (.dict .empty)) p
      (discard (allocate (.dict .empty))) (discard (allocate (.dict .empty))) := by
    refine (joins_allocate h new fun _ => .dict (by simp [Dict.values, Dict.empty])).bind ?_
    rintro _ q later ⟨known, rfl, pushed⟩
    exact joins_pure (v := ()) later.holds ⟨known, pushed⟩
  apply Joins.get
  dsimp only
  rw [← next]
  apply made.bind
  rintro _ q later ⟨known, pushed⟩
  have there : q.1.heap.get? p.1.heap.nextRef = some (.dict .empty) := by
    rw [pushed]
    exact (Heap.get?_push ..).trans (if_pos rfl)
  have here' : q.1.heap.get? r = some (.function f) := by
    rw [pushed]
    exact Heap.get?_push_of_some _ here
  have moved : q.2.heap.get? (ρ.place r) = some (.function (ρ.function f)) := by
    rw [(bond.relocated later.holds).heap, here']
    rfl
  have fair := Piece.fair_setField here' hm (Metadata.withDict_set? isDict there m)
    (by rintro rfl; cases isDict) (fun mind => bond.sound mind later.holds) known
  have stored := joins_store later.holds fair
  rw [Relocation.object, ρ.function_withMetadata, ρ.metadata_withDict] at stored
  have set : bond.Joins id Any q
      (modifyMetadata r (Metadata.withDict field p.1.heap.nextRef))
      (modifyMetadata (ρ.place r) (Metadata.withDict field (ρ.place p.1.heap.nextRef))) :=
    stored.of_run_eq ((run_modifyMetadata here' hm _).trans (run_store here' _).symm)
      ((run_modifyMetadata moved (by rw [ρ.function_metadata?, hm]; rfl) _).trans
        (run_store moved _).symm)
  exact set.bind fun _ _ later _ => joins_pure later.holds (later.knows known)

theorem joins_reading (h : bond.Holds p) {reading : Reading}
    (fair : reading.Fair bond.minds p.1) :
    bond.Joins ρ.value bond.Knows p reading.run (ρ.reading reading).run := by
  cases reading with
  | failure cause => exact joins_throw h cause
  | value v => exact joins_pure h fair
  | text content => exact joins_textValue h content
  | wrapper w =>
    exact (joins_allocate h (Object.new_function fair.1) fair.2).weaken fun _ _ _ made => made.1
  | dict r field =>
    obtain ⟨isDict, f, m, hf, hm, -⟩ := fair
    obtain ⟨_, ⟨⟩, here⟩ := Heap.get?_of_function? (Runtime.function?_of_baseFunction? hf)
    refine (joins_dictFor h isDict here hm).bind fun dict q later known => ?_
    exact joins_pure (v := Value.object dict) later.holds known

theorem joins_assignment (h : bond.Holds p) (name : String) {value : Value}
    (known : bond.Knows p value) {assignment : Assignment}
    (fair : assignment.Fair bond.minds p.1) :
    bond.Joins id Any p (assignment.run name value)
      ((ρ.assignment assignment).run name (ρ.value value)) := by
  cases assignment with
  | failure cause => exact joins_throw h cause
  | object r new =>
    obtain ⟨old, fair⟩ := fair
    exact joins_store h fair
  | entry place => exact joins_setInDict h place name known
  | dict r =>
    obtain ⟨f, m, here, hm, -⟩ := fair
    refine (joins_dictFor h rfl here hm).bind fun dict q later _ => ?_
    exact joins_setInDict later.holds dict name (later.knows known)
  | type type => exact joins_setTypeAttribute h type name known

theorem joins_getAttribute (h : bond.Holds p) {v : Value} (known : bond.Knows p v)
    (name : String) :
    bond.Joins ρ.value bond.Knows p (getAttribute v name) (getAttribute (ρ.value v) name) := by
  have fair := Runtime.reading_fair (fun mind => bond.sound mind h) known name
  refine (joins_reading h fair).of_run_eq (run_getAttribute v name) ?_
  rw [run_getAttribute, (bond.relocated h).reading]

theorem joins_setAttribute (h : bond.Holds p) (v : Value) (name : String) {value : Value}
    (known : bond.Knows p value) :
    bond.Joins id Any p (setAttribute v name value)
      (setAttribute (ρ.value v) name (ρ.value value)) := by
  have fair := Runtime.assignment_fair (fun mind => bond.sound mind h) known v name
  refine (joins_assignment h name known fair).of_run_eq (run_setAttribute v name value) ?_
  rw [run_setAttribute, (bond.relocated h).assignment]

end Callables.Bond
