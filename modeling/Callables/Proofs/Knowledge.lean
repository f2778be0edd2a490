import Callables.Attribute
import Callables.Proofs.Change

namespace Callables

namespace Function

theorem ownReferences_of_wrapped {f : Function} {wrapped : Value} (h : f.wrapped? = some wrapped) :
    f.ownReferences = [wrapped] := by
  obtain ⟨_, _, _, _, _, kind⟩ := f
  cases kind <;> simp_all [wrapped?, FunctionKind.wrapped?, ownReferences]

theorem ownReferences_of_metadata {f : Function} {metadata : Metadata}
    (h : f.metadata? = some metadata) : f.ownReferences = metadata.references := by
  obtain ⟨_, _, _, _, _, kind⟩ := f
  cases kind <;> simp_all [metadata?, FunctionKind.metadata?, ownReferences]

theorem ownReferences_withMetadata {f : Function} {metadata : Metadata}
    (h : f.metadata? = some metadata) (metadata' : Metadata) :
    ownReferences { f with kind := f.kind.withMetadata metadata' } = metadata'.references := by
  obtain ⟨_, _, _, _, _, kind⟩ := f
  cases kind with
  | defined | native => rfl
  | builtin | method => simp [metadata?, FunctionKind.metadata?] at h

end Function

/-- What holds of whatever is wrapped holds at the end of a chain of wrappers. -/
theorem Heap.innermost_of_wrapped {h : Heap} {P : Value → Prop}
    (wrapped : ∀ {v f u}, h.function? v = some f → f.wrapped? = some u → P u) {v : Value}
    (holds : P v) : P (h.innermost v) := by
  cases v with
  | none | bool | int | float | text | type => exact holds
  | object r =>
    change P (h.innermostAt r)
    induction r using Nat.strongRecOn with
    | ind r ih =>
      rw [innermostAt]
      cases hw : (h.function? (.object r)).bind Function.wrapped? with
      | none => exact holds
      | some inside =>
        obtain ⟨f, hf, hk⟩ := Option.bind_eq_some_iff.mp hw
        have holds := wrapped hf hk
        cases inside with
        | object inner =>
          dsimp only
          split
          · rename_i less
            exact ih inner less holds
          · exact holds
        | none | bool | int | float | text | type => exact holds

namespace Runtime.Sound

variable {rt : Runtime}

theorem knows_references (sound : rt.Sound) {v : Value} {o : Object}
    (ho : rt.heap.object? v = some o) : rt.KnowsAll o.references := by
  cases v with
  | object r => exact (sound.live ho).references
  | none | bool | int | float | text | type => simp [Heap.object?] at ho

theorem knows_items (sound : rt.Sound) (r : Option Ref) : rt.KnowsAll (rt.heap.itemsAt r) := by
  unfold Heap.itemsAt
  cases hr : r.bind fun r => rt.heap.tuple? (.object r) with
  | none => simp
  | some items =>
    obtain ⟨place, rfl, ht⟩ := Option.bind_eq_some_iff.mp hr
    obtain ⟨o, ho, hi⟩ := Option.bind_eq_some_iff.mp ht
    obtain rfl := Object.tuple?_eq_some.mp hi
    exact sound.knows_references ho

theorem knows_entries (sound : rt.Sound) (r : Option Ref) :
    rt.KnowsAll (rt.heap.entriesAt r).values := by
  unfold Heap.entriesAt
  cases hr : r.bind fun r => rt.heap.dict? (.object r) with
  | none => simp [Dict.values, Dict.empty]
  | some entries =>
    obtain ⟨place, rfl, hd⟩ := Option.bind_eq_some_iff.mp hr
    obtain ⟨o, ho, he⟩ := Option.bind_eq_some_iff.mp hd
    obtain rfl := Object.dict?_eq_some.mp he
    exact sound.knows_references ho

theorem knows_entry (sound : rt.Sound) {r : Option Ref} {name : String} {v : Value}
    (h : (rt.heap.entriesAt r).get? name = some v) : rt.Knows v :=
  sound.knows_entries r v (Dict.mem_values_of_get? h)

theorem knows_code (sound : rt.Sound) {v : Value} {code : Code}
    (h : rt.heap.code? v = some code) : rt.KnowsAll code.body.constants := by
  obtain ⟨o, ho, hc⟩ := Option.bind_eq_some_iff.mp h
  obtain rfl := Object.code?_eq_some.mp hc
  exact sound.knows_references ho

theorem knows_moduleNames (sound : rt.Sound) {v : Value} {names : Ref}
    (h : rt.moduleNames? v = some names) : rt.Knows (.object names) := by
  unfold moduleNames? at h
  split at h
  · rename_i ho
    obtain rfl := Option.some.inj h
    exact sound.knows_references ho _ (by simp [Object.references])
  · simp at h

theorem knows_attributes (sound : rt.Sound) (id : TypeId) :
    rt.KnowsAll (rt.types.info id).attributes.values := by
  obtain ⟨t, ht⟩ := Registry.exists_get?_of_contains sound.lawful.root
  cases hi : rt.types.get? id with
  | some u =>
    rw [Types.info_of_get? hi]
    exact sound.attributes hi
  | none =>
    have : rt.types.info id = t := by simp [Types.info, hi, ht]
    rw [this]
    exact sound.attributes ht

theorem knows_lookup (sound : rt.Sound) {id : TypeId} {name : String} {v : Value}
    (h : rt.types.lookup id name = some v) : rt.Knows v := by
  obtain ⟨t, _, ht⟩ := List.exists_of_findSome?_eq_some h
  exact sound.knows_attributes t v (Dict.mem_values_of_get? ht)

theorem knows_own (sound : rt.Sound) {v attr : Value} {name : String}
    (h : (rt.ownAttributes? v).bind (·.get? name) = some attr) : rt.Knows attr := by
  obtain ⟨attributes, ha, hn⟩ := Option.bind_eq_some_iff.mp h
  unfold ownAttributes? at ha
  split at ha
  · rename_i ho
    obtain rfl := Option.some.inj ha
    exact sound.knows_references ho attr (Dict.mem_values_of_get? hn)
  · simp at ha

theorem knows_function (sound : rt.Sound) {v : Value} {f : Function}
    (hf : rt.heap.function? v = some f) :
    rt.KnowsAll f.commonReferences ∧ rt.KnowsAll f.ownReferences := by
  obtain ⟨r, rfl, ho⟩ := Heap.get?_of_function? hf
  exact (knowsAll_append ..).mp (sound.live ho).references

theorem knows_receiver (sound : rt.Sound) {v receiver : Value} {f : Function}
    (hf : rt.heap.function? v = some f) (hr : f.receiver = some receiver) : rt.Knows receiver :=
  (sound.knows_function hf).1 receiver (by simp [Function.commonReferences, hr])

theorem knows_module (sound : rt.Sound) {v module : Value} {f : Function}
    (hf : rt.heap.function? v = some f) (hm : f.module = some module) : rt.Knows module :=
  (sound.knows_function hf).1 module (by simp [Function.commonReferences, hm])

theorem knows_wrapped (sound : rt.Sound) {v wrapped : Value} {f : Function}
    (hf : rt.heap.function? v = some f) (hw : f.wrapped? = some wrapped) : rt.Knows wrapped := by
  have h := (sound.knows_function hf).2
  rw [Function.ownReferences_of_wrapped hw] at h
  exact h wrapped (by simp)

theorem knows_owner (sound : rt.Sound) {v : Value} {f : Function} {owner : TypeId}
    (hf : rt.heap.function? v = some f) (ho : f.owner = some owner) : rt.Knows (.type owner) := by
  obtain ⟨r, rfl, hr⟩ := Heap.get?_of_function? hf
  exact (sound.live hr).classes owner (by simp [Object.classes, ho])

theorem knows_innermost (sound : rt.Sound) {v : Value} (h : rt.Knows v) :
    rt.Knows (rt.heap.innermost v) :=
  Heap.innermost_of_wrapped sound.knows_wrapped h

end Runtime.Sound

structure Metadata.Known (rt : Runtime) (m : Metadata) : Prop where
  doc : rt.Knows m.doc
  module : ∀ v, m.module = some v → rt.Knows v
  code : ∀ r, m.code = some r → rt.Knows (.object r)
  defaults : ∀ r, m.defaults = some r → rt.Knows (.object r)
  keywordDefaults : ∀ r, m.keywordDefaults = some r → rt.Knows (.object r)
  annotations : ∀ r, m.annotations = some r → rt.Knows (.object r)
  attributes : ∀ r, m.attributes = some r → rt.Knows (.object r)
  globals : rt.Knows m.globals
  closure : ∀ r, m.closure = some r → rt.Knows (.object r)

theorem Metadata.Known.grow {rt rt' : Runtime} {m : Metadata} (h : m.Known rt)
    (grows : rt.Grows rt') : m.Known rt' :=
  ⟨grows.knows h.doc, fun v hv => grows.knows (h.module v hv),
    fun r hr => grows.knows (h.code r hr), fun r hr => grows.knows (h.defaults r hr),
    fun r hr => grows.knows (h.keywordDefaults r hr),
    fun r hr => grows.knows (h.annotations r hr), fun r hr => grows.knows (h.attributes r hr),
    grows.knows h.globals, fun r hr => grows.knows (h.closure r hr)⟩

theorem Runtime.knowsAll_metadata {rt : Runtime} {m : Metadata} :
    rt.KnowsAll m.references ↔ m.Known rt := by
  simp only [Metadata.references, KnowsAll, List.cons_append, List.mem_cons, List.mem_append,
    Option.mem_toList, List.mem_filterMap, Option.map_eq_some_iff, List.not_mem_nil, or_false]
  constructor
  · intro h
    constructor <;> grind
  · rintro ⟨hd, hm, hc, hdf, hk, ha, hat, hg, hcl⟩ v hv
    grind

theorem Runtime.Sound.knows_metadata {rt : Runtime} (sound : rt.Sound) {v : Value} {f : Function}
    {metadata : Metadata} (hf : rt.heap.function? v = some f)
    (hm : f.metadata? = some metadata) : metadata.Known rt := by
  have h := (sound.knows_function hf).2
  rwa [Function.ownReferences_of_metadata hm, Runtime.knowsAll_metadata] at h

namespace Runtime

variable {rt : Runtime}

theorem Sound.knows_accessOf (sound : rt.Sound) {v : Value} (hv : rt.Knows v) :
    (∀ u, (rt.accessOf v).1 = some u → rt.Knows u) ∧
      rt.types.contains (rt.accessOf v).2 = true := by
  cases v with
  | type id =>
    refine ⟨?_, hv⟩
    intro u hu
    cases hu
  | none | bool | int | float | text | object =>
    refine ⟨?_, sound.lawful.contains_info _⟩
    intro u hu
    exact Option.some.inj hu ▸ hv

theorem Sound.knows_bindingReceiver (sound : rt.Sound) {callable receiver : Value}
    {accessor : Option Value} {accessingClass : Option TypeId}
    (h : rt.bindingReceiver? callable accessor accessingClass = some receiver)
    (ha : ∀ v, accessor = some v → rt.Knows v)
    (ht : ∀ id, accessingClass = some id → rt.types.contains id = true) : rt.Knows receiver := by
  unfold bindingReceiver? at h
  split at h
  · simp at h
  · split at h
    · simp at h
    · split at h
      · simp at h
      · split at h
        · split at h
          · rename_i id
            exact Option.some.inj h ▸ ht id rfl
          · exact Option.some.inj h ▸ sound.lawful.contains_info _
          · simp at h
        · exact ha receiver h

theorem knows_valueOf {place : Option Ref} (h : ∀ p, place = some p → rt.Knows (.object p)) :
    rt.Knows (Metadata.valueOf place) := by
  cases place with
  | none => trivial
  | some p => exact h p rfl

end Runtime
end Callables
