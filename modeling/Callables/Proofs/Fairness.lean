import Callables.Proofs.Bonds
import Callables.Proofs.Readings

namespace Callables

namespace Metadata

variable {rt : Runtime} {m m' : Metadata} {field : MetadataField} {value : Value}

/-- A field set to a known value, or not set at all, is known. -/
theorem Known.set? (h : m.Known rt) (hv : rt.Knows value) {heap : Heap}
    (hm : m.set? heap field value = some m') : m'.Known rt := by
  have reference (wanted : Bool) (r : Ref)
      (hr : (if wanted then value.asObject? else none) = some r) : rt.Knows (.object r) := by
    cases value with
    | object place =>
      have same := (Option.ite_none_right_eq_some.mp hr).2
      obtain rfl : place = r := by simpa [Value.asObject?] using same
      exact hv
    | type | none | bool | int | float | text => simp [Value.asObject?] at hr
  cases field with
  | name | qualname =>
    obtain ⟨_, _, rfl⟩ := Option.map_eq_some_iff.mp hm
    exact { h with }
  | doc =>
    obtain rfl := Option.some.inj hm
    exact { h with doc := hv }
  | module =>
    obtain rfl := Option.some.inj hm
    exact { h with module := fun v hv' => Option.some.inj hv' ▸ hv }
  | code =>
    obtain ⟨c, hc, rfl⟩ := Option.map_eq_some_iff.mp hm
    exact { h with code := fun r hr => reference _ r (Option.some.inj hr ▸ hc) }
  | defaults =>
    obtain rfl := Option.some.inj hm
    exact { h with defaults := reference _ }
  | keywordDefaults =>
    obtain rfl := Option.some.inj hm
    exact { h with keywordDefaults := reference _ }
  | annotations =>
    obtain rfl := Option.some.inj hm
    exact { h with annotations := reference _ }
  | attributes =>
    obtain ⟨d, hd, rfl⟩ := Option.map_eq_some_iff.mp hm
    exact { h with attributes := fun r hr => reference _ r (Option.some.inj hr ▸ hd) }

theorem Known.at? (h : m.Known rt) (held : m.at? field = some value) : rt.Knows value := by
  cases field with
  | name | qualname =>
    obtain rfl := Option.some.inj held
    trivial
  | doc =>
    obtain rfl := Option.some.inj held
    exact h.doc
  | module => exact h.module value held
  | code =>
    obtain ⟨r, hr, rfl⟩ := Option.map_eq_some_iff.mp held
    exact h.code r hr
  | defaults =>
    obtain ⟨r, hr, rfl⟩ := Option.map_eq_some_iff.mp held
    exact h.defaults r hr
  | keywordDefaults =>
    obtain ⟨r, hr, rfl⟩ := Option.map_eq_some_iff.mp held
    exact h.keywordDefaults r hr
  | annotations =>
    obtain ⟨r, hr, rfl⟩ := Option.map_eq_some_iff.mp held
    exact h.annotations r hr
  | attributes =>
    obtain ⟨r, hr, rfl⟩ := Option.map_eq_some_iff.mp held
    exact h.attributes r hr

end Metadata

def MetadataField.isDict : MetadataField → Bool
  | .attributes | .annotations => true
  | .name | .qualname | .doc | .module | .code | .defaults | .keywordDefaults => false

theorem Metadata.withDict_set? {field : MetadataField} (isDict : field.isDict = true) {h : Heap}
    {dict : Ref} {entries : Dict Value} (there : h.get? dict = some (.dict entries))
    (m : Metadata) : m.set? h field (.object dict) = some (m.withDict field dict) := by
  have seen : (h.dict? (.object dict)).isSome = true := by
    simp [Heap.dict?, Heap.object?, there, Object.dict?]
  cases field with
  | attributes | annotations => simp [set?, seen, withDict, Value.asObject?]
  | name | qualname | doc | module | code | defaults | keywordDefaults => cases isDict

/-- Setting a field of a function to what it takes is fair. -/
theorem Piece.fair_setField {minds : Prop} {rt : Runtime} {r : Ref} {f : Function}
    {m m' : Metadata} {field : MetadataField} {value : Value}
    (here : rt.heap.get? r = some (.function f)) (hm : f.metadata? = some m)
    (set : m.set? rt.heap field value = some m')
    (fits : field = .code → f.isHost = true ∧ ∃ c, rt.heap.code? value = some c ∧
      c.freeVariables.length = (rt.heap.itemsAt m.closure).length)
    (sound : minds → rt.Sound) (known : minds → rt.Knows value) :
    (Piece.store r (.function f) (.function (f.withMetadata m'))).Fair minds rt := by
  refine ⟨here, .metadata here hm set fun code _ => fits code, fun mind => ?_⟩
  have alike : f.Alike (f.withMetadata m') := f.alike_withMetadata m'
  refine ⟨.function alike, ((sound mind).live here).alike alike ?_⟩
  rw [Function.withMetadata, Function.ownReferences_withMetadata hm, Runtime.knowsAll_metadata]
  exact ((sound mind).knows_metadata (Heap.function?_of_get? here) hm).set? (known mind) set

def Reading.Fair (minds : Prop) (rt : Runtime) : Reading → Prop
  | .failure _ | .text _ => True
  | .value v => minds → rt.Knows v
  | .wrapper w => w.New rt.heap ∧ (minds → (Object.function w).Sound rt)
  | .dict r field => field.isDict = true ∧ ∃ f m, rt.baseFunction? (.object r) = some f ∧
      f.metadata? = some m ∧ m.at? field = none

def Assignment.Fair (minds : Prop) (rt : Runtime) : Assignment → Prop
  | .failure _ | .entry _ | .type _ => True
  | .object r new => ∃ old, (Piece.store r old new).Fair minds rt
  | .dict r => ∃ f m, rt.heap.get? r = some (.function f) ∧ f.metadata? = some m ∧
      m.attributes = none

namespace Runtime

variable {minds : Prop} {rt : Runtime} {r : Ref} {f : Function} {v : Value}

section Readings

theorem ownReading_fair (sound : minds → rt.Sound) (r : Ref) (m : Metadata) (name : String) :
    (rt.ownReading r m name).Fair minds rt := by
  unfold ownReading
  split
  · rename_i v hv
    exact fun mind => (sound mind).knows_entry hv
  · trivial

theorem ownerReading_fair (sound : minds → rt.Sound) (hf : rt.heap.function? v = some f)
    (name : String) : (rt.ownerReading v f name).Fair minds rt := by
  unfold ownerReading
  split
  · rename_i owner ho
    exact fun mind => (sound mind).knows_owner hf ho
  · trivial

theorem fieldReading_fair (sound : minds → rt.Sound) (hf : rt.baseFunction? (.object r) = some f)
    {m : Metadata} (hm : f.metadata? = some m) (field : MetadataField) :
    (f.fieldReading r m field).Fair minds rt := by
  have here := function?_of_baseFunction? hf
  unfold Function.fieldReading
  split
  · rename_i held
    exact fun mind => ((sound mind).knows_metadata here hm).at? held
  · rename_i empty
    exact ⟨rfl, f, m, hf, hm, empty⟩
  · rename_i empty
    exact ⟨rfl, f, m, hf, hm, empty⟩
  · exact fun mind => knows_getD fun _ hmod => (sound mind).knows_module here hmod
  · exact fun _ => trivial

theorem metadataReading_fair (sound : minds → rt.Sound)
    (hf : rt.baseFunction? (.object r) = some f) {m : Metadata} (hm : f.metadata? = some m)
    (name : String) : (rt.metadataReading r f m name).Fair minds rt := by
  have here := function?_of_baseFunction? hf
  have own := ownReading_fair sound r m name
  unfold metadataReading
  split
  · exact own
  · split
    · split
      · exact own
      · exact fieldReading_fair sound hf hm _
    · split
      · exact ownerReading_fair sound here name
      · exact fun mind => knows_getD fun _ hr => (sound mind).knows_receiver here hr
      · exact fun mind => ((sound mind).knows_metadata here hm).globals
      · exact fun mind => knows_valueOf ((sound mind).knows_metadata here hm).closure
      · exact own

theorem bareReading_fair (sound : minds → rt.Sound)
    (here : rt.heap.function? (.object r) = some f) (name : String) :
    (rt.bareReading r f name).Fair minds rt := by
  unfold bareReading
  split
  · trivial
  · trivial
  · exact ownerReading_fair sound here name
  · split
    · trivial
    · exact fun _ => trivial
  · exact fun mind => knows_getD fun _ hm => (sound mind).knows_module here hm
  · exact fun mind => knows_getD fun _ hr => (sound mind).knows_receiver here hr
  · trivial

theorem bindingReading_fair (sound : minds → rt.Sound) {callable : Value}
    (known : minds → rt.Knows callable) {accessor : Option Value} {accessingClass : Option TypeId}
    (access : minds → (∀ u, accessor = some u → rt.Knows u) ∧
      ∀ id, accessingClass = some id → rt.types.contains id = true) :
    (rt.bindingReading callable accessor accessingClass).Fair minds rt := by
  unfold bindingReading
  split
  · rename_i receiver hr
    split
    · rename_i w made
      refine ⟨Activity.new_of_wrapper made, fun mind => ?_⟩
      have receiver := (sound mind).knows_bindingReceiver hr (access mind).1 (access mind).2
      exact (sound mind).wrapper made (known mind) receiver
    · trivial
  · exact known

theorem classReading_fair (sound : minds → rt.Sound) (known : minds → rt.Knows v)
    (name : String) : (rt.classReading v name).Fair minds rt := by
  unfold classReading
  split
  · trivial
  · rename_i attr found
    have held : minds → rt.Knows attr := fun mind => (sound mind).knows_lookup found
    split
    · refine bindingReading_fair sound held fun mind => ?_
      obtain ⟨accessor, type⟩ := (sound mind).knows_accessOf (known mind)
      exact ⟨accessor, fun _ he => Option.some.inj he ▸ type⟩
    · exact held

theorem objectReading_fair (sound : minds → rt.Sound) (known : minds → rt.Knows v)
    (name : String) : (rt.objectReading v name).Fair minds rt := by
  unfold objectReading
  split
  · split
    · rename_i found
      exact fun mind => (sound mind).knows_entry found
    · trivial
  · split
    · rename_i found
      exact fun mind => (sound mind).knows_own found
    · exact classReading_fair sound known name

theorem directReading_fair (sound : minds → rt.Sound) (known : minds → rt.Knows v)
    (name : String) : (rt.directReading v name).Fair minds rt := by
  unfold directReading
  split
  · rename_i r f hf
    unfold functionReading
    cases hm : f.metadata? with
    | some m => exact metadataReading_fair sound hf hm name
    | none => exact bareReading_fair sound (function?_of_baseFunction? hf) name
  · exact objectReading_fair sound known name

theorem reading_fair (sound : minds → rt.Sound) (known : minds → rt.Knows v) (name : String) :
    (rt.reading v name).Fair minds rt := by
  unfold reading
  split
  · exact directReading_fair sound known name
  · rename_i f hf
    have here := function?_of_baseFunction? hf
    split
    · exact directReading_fair sound known name
    · rename_i wrapped hw
      split
      · exact fun mind => knows_getD fun _ hr => (sound mind).knows_receiver here hr
      · exact fun mind => (sound mind).knows_wrapped here hw
      · exact ownerReading_fair sound here name
      · exact directReading_fair sound (fun mind => (sound mind).knows_innermost (known mind)) name

/-- A read makes a dict only for a function that has none of the sort. -/
theorem reading_dict {name : String} {field : MetadataField}
    (made : rt.reading v name = .dict r field) :
    ∃ f m, rt.baseFunction? (.object r) = some f ∧ f.metadata? = some m ∧ m.at? field = none := by
  have fair : (rt.reading v name).Fair False rt := reading_fair False.elim False.elim name
  rw [made] at fair
  exact fair.2

end Readings

section Assignments

theorem specialAssignment_fair (sound : minds → rt.Sound) {value : Value}
    (known : minds → rt.Knows value) (here : rt.heap.get? r = some (.function f)) {m : Metadata}
    (hm : f.metadata? = some m) (special : SpecialAttribute) (name : String) :
    (rt.specialAssignment r f m special name value).Fair minds rt := by
  unfold specialAssignment
  split
  · rename_i m' assigned
    obtain ⟨field, -, takes, set, -⟩ := Function.assign_ok assigned
    refine ⟨_, Piece.fair_setField here hm set ?_ sound known⟩
    rintro rfl
    exact takes
  · trivial

theorem assignment_fair (sound : minds → rt.Sound) {value : Value}
    (known : minds → rt.Knows value) (v : Value) (name : String) :
    (rt.assignment v name value).Fair minds rt := by
  unfold assignment
  split
  · rename_i r f hf
    have here := Heap.get?_of_function? (function?_of_baseFunction? hf)
    obtain ⟨_, ⟨⟩, here⟩ := here
    unfold functionAssignment
    split
    · trivial
    · rename_i m _ hm
      cases hd : m.attributes with
      | some dict => trivial
      | none => exact ⟨f, m, here, hm, hd⟩
    · rename_i m _ hm
      exact specialAssignment_fair sound known here hm _ name
    · split <;> trivial
  · split <;> trivial
  · split
    · trivial
    · rename_i r _ type attributes found
      refine ⟨_, found, .attributes found _, fun mind => ⟨.ofClass type _ _, ?_⟩⟩
      refine ⟨?_, ((sound mind).live found).classes, by simp⟩
      intro u hu
      rcases Dict.mem_values_set hu with rfl | hu
      · exact known mind
      · exact ((sound mind).live found).references u hu
    · trivial
  · trivial

end Assignments

end Runtime
end Callables
