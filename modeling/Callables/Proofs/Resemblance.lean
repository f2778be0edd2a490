import Callables.Proofs.Building
import Callables.Proofs.Knowledge
import Callables.Proofs.Readings

namespace Callables

namespace Object

theorem typeId_of_core {o o' : Object} (h : o'.core = o.core) : o'.typeId = o.typeId := by
  have kinds (kind : FunctionKind) : (kind.withMetadata .blank).typeId = kind.typeId := by
    cases kind <;> rfl
  cases o <;> cases o' <;> simp_all [core, typeId]
  rename_i f g
  rw [← kinds f.kind, ← kinds g.kind, h.2.2.2.2.2]

theorem function?_of_core {o o' : Object} (h : o'.core = o.core) (plain : o.function? = none) :
    o'.function? = none := by
  cases o' <;> cases o <;> simp_all [core, function?]

/-- Where an object at a place keeps attributes of its own: an object of a class in itself, a module
in its dict, and a function in the dict that its metadata names. -/
def attributePlace? (place : Ref) : Object → Option Ref
  | .ofClass _ _ => some place
  | .module _ names => some names
  | .function f => f.metadata?.bind Metadata.attributes
  | _ => none

end Object

namespace Runtime

def directPlace? (rt : Runtime) : Value → Option Ref
  | .object r => (rt.heap.get? r).bind (Object.attributePlace? r)
  | _ => none

/-- Where a value keeps attributes of its own. A wrapper has those of the value that it wraps. -/
def attributePlace? (rt : Runtime) (v : Value) : Option Ref := rt.directPlace? (rt.heap.innermost v)

variable {rt rt' : Runtime} {v : Value}

theorem directPlace?_of_module {names : Ref} (h : rt.moduleNames? v = some names) :
    rt.directPlace? v = some names := by
  unfold moduleNames? at h
  cases v with
  | object r =>
    simp only [Heap.object?] at h
    split at h
    · rename_i found
      simpa [directPlace?, found, Object.attributePlace?] using h
    · cases h
  | none | bool | int | float | text | type => cases h

theorem directPlace?_of_function {f : Function} {m : Metadata}
    (hf : rt.heap.function? v = some f) (hm : f.metadata? = some m) :
    rt.directPlace? v = m.attributes := by
  obtain ⟨r, rfl, here⟩ := Heap.get?_of_function? hf
  simp [directPlace?, here, Object.attributePlace?, hm]

theorem innermost_of_direct (h : (rt.heap.function? v).bind Function.wrapped? = none) :
    rt.heap.innermost v = v := by
  cases v with
  | object r => rw [Heap.innermost, Heap.innermostAt, h]
  | none | bool | int | float | text | type => rfl

def Alike (rt rt' : Runtime) (v : Value) : Prop :=
  (rt'.heap.object? v).map Object.core = (rt.heap.object? v).map Object.core

namespace Alike

theorem object? (h : rt.Alike rt' v) :
    rt.heap.object? v = none ∧ rt'.heap.object? v = none ∨
      ∃ o o', rt.heap.object? v = some o ∧ rt'.heap.object? v = some o' ∧ o'.core = o.core := by
  unfold Alike at h
  cases ho : rt.heap.object? v with
  | none =>
    rw [ho] at h
    exact .inl ⟨rfl, Option.map_eq_none_iff.mp h⟩
  | some o =>
    rw [ho] at h
    obtain ⟨o', ho', same⟩ := Option.map_eq_some_iff.mp h
    exact .inr ⟨o, o', rfl, ho', same⟩

theorem typeIdOf (h : rt.Alike rt' v) : rt'.typeIdOf v = rt.typeIdOf v := by
  cases v with
  | object place =>
    rcases h.object? with ⟨ho, ho'⟩ | ⟨o, o', ho, ho', same⟩
    · simp only [Heap.object?] at ho ho'
      simp [Runtime.typeIdOf, ho, ho']
    · simp only [Heap.object?] at ho ho'
      simp [Runtime.typeIdOf, ho, ho', Object.typeId_of_core same]
  | none | bool | int | float | text | type => rfl

/-- A function is a function with the same core, and nothing else becomes one. -/
theorem function? (h : rt.Alike rt' v) :
    rt.heap.function? v = none ∧ rt'.heap.function? v = none ∨
      ∃ f g, rt.heap.function? v = some f ∧ rt'.heap.function? v = some g ∧
        (Object.function g).core = (Object.function f).core := by
  rcases h.object? with ⟨ho, ho'⟩ | ⟨o, o', ho, ho', same⟩
  · exact .inl (by simp [Heap.function?, ho, ho'])
  · cases plain : o.function? with
    | none =>
      have plain' := Object.function?_of_core same plain
      exact .inl (by simp [Heap.function?, ho, ho', plain, plain'])
    | some f =>
      obtain rfl := Object.function?_eq_some.mp plain
      obtain ⟨g, rfl, -⟩ := Object.function_of_core same
      refine .inr ⟨f, g, ?_, ?_, same⟩
      · simp [Heap.function?, ho, Object.function?]
      · simp [Heap.function?, ho', Object.function?]

theorem moduleNames? (h : rt.Alike rt' v) : rt'.moduleNames? v = rt.moduleNames? v := by
  unfold Runtime.moduleNames?
  rcases h.object? with ⟨ho, ho'⟩ | ⟨o, o', ho, ho', same⟩
  · rw [ho, ho']
  · rw [ho, ho']
    cases o <;> cases o' <;> simp_all [Object.core]

end Alike

theorem alike_of_bindingReceiver? {callable receiver : Value} {accessor : Option Value}
    {cls : Option TypeId} (h : rt.bindingReceiver? callable accessor cls = some receiver)
    (alike : ∀ v, accessor = some v → rt.Alike rt' v) : rt.Alike rt' receiver := by
  unfold bindingReceiver? at h
  split at h
  · cases h
  · split at h
    · cases h
    · split at h
      · cases h
      · split at h
        · split at h
          · exact Option.some.inj h ▸ rfl
          · exact Option.some.inj h ▸ rfl
          · cases h
        · exact alike receiver h

/-- The types are the same, and whatever functions refer to and lookups find has kept its core. -/
structure Resembles (rt rt' : Runtime) : Prop where
  types : rt'.types = rt.types
  receiver : ∀ {v f u}, rt.heap.function? v = some f → f.receiver = some u → rt.Alike rt' u
  wrapped : ∀ {v f u}, rt.heap.function? v = some f → f.wrapped? = some u → rt.Alike rt' u
  found : ∀ {id name u}, rt.types.lookup id name = some u → rt.Alike rt' u

namespace Resembles

theorem typeOf (h : rt.Resembles rt') (alike : rt.Alike rt' v) : rt'.typeOf v = rt.typeOf v := by
  unfold Runtime.typeOf
  rw [alike.typeIdOf, h.types]

theorem typeName (h : rt.Resembles rt') (alike : rt.Alike rt' v) :
    rt'.typeName v = rt.typeName v := by
  unfold Runtime.typeName
  rw [h.typeOf alike]

theorem noAttribute (h : rt.Resembles rt') (alike : rt.Alike rt' v) (name : String) :
    rt'.noAttribute v name = rt.noAttribute v name := by
  unfold Runtime.noAttribute
  rw [h.typeName alike]

theorem accessOf (h : rt.Resembles rt') (alike : rt.Alike rt' v) :
    rt'.accessOf v = rt.accessOf v := by
  cases v with
  | type id => rfl
  | none | bool | int | float | text | object => simp only [Runtime.accessOf, h.typeOf alike]

theorem baseFunction? (h : rt.Resembles rt') (alike : rt.Alike rt' v) :
    rt.baseFunction? v = none ∧ rt'.baseFunction? v = none ∨
      ∃ f g, rt.baseFunction? v = some f ∧ rt'.baseFunction? v = some g ∧
        (Object.function g).core = (Object.function f).core := by
  unfold Runtime.baseFunction?
  rw [h.typeOf alike]
  split
  · exact alike.function?
  · exact .inl ⟨rfl, rfl⟩

theorem wrapper (h : rt.Resembles rt') {callable receiver : Value}
    (alike : rt.Alike rt' callable) (alike' : rt.Alike rt' receiver) :
    rt'.wrapper callable receiver = rt.wrapper callable receiver := by
  have check (e : Entry) (owner : TypeId) :
      rt'.checkSelf e owner receiver = rt.checkSelf e owner receiver := by
    unfold Runtime.checkSelf Runtime.conforms Runtime.isInstance
    rw [h.typeOf alike', h.typeName alike', h.types]
  unfold Runtime.wrapper
  rcases h.baseFunction? alike with ⟨hf, hg⟩ | ⟨f, g, hf, hg, same⟩
  · rw [hf, hg]
  · obtain ⟨_, ⟨⟩, entry, receiver', module, owner, -, -⟩ := Object.function_of_core same
    have bound : g.isBound = f.isBound := congrArg Option.isSome receiver'
    simp only [hf, hg, entry, owner, module, bound, Runtime.directWrapper, check]

theorem bindingReceiver? (h : rt.Resembles rt') {callable : Value}
    (alike : rt.Alike rt' callable) {accessor : Option Value}
    (alike' : ∀ v, accessor = some v → rt.Alike rt' v) (cls : Option TypeId) :
    rt'.bindingReceiver? callable accessor cls = rt.bindingReceiver? callable accessor cls := by
  unfold Runtime.bindingReceiver?
  rcases h.baseFunction? alike with ⟨hf, hg⟩ | ⟨f, g, hf, hg, same⟩
  · rw [hf, hg]
  · obtain ⟨_, ⟨⟩, entry, receiver', module, owner, -, -⟩ := Object.function_of_core same
    have bound : g.isBound = f.isBound := congrArg Option.isSome receiver'
    simp only [hf, hg, entry, module, bound]
    cases cls with
    | some type => rfl
    | none =>
      cases accessor with
      | none => rfl
      | some v =>
        dsimp only
        rw [h.typeOf (alike' v rfl)]

theorem innermostAt (h : rt.Resembles rt') (place : Ref) (alike : rt.Alike rt' (.object place)) :
    rt'.heap.innermostAt place = rt.heap.innermostAt place := by
  -- a wrapper is younger than what it wraps, so the chain goes down
  induction place using Nat.strongRecOn with
  | ind place ih =>
    have same : (rt'.heap.function? (.object place)).bind Function.wrapped? =
        (rt.heap.function? (.object place)).bind Function.wrapped? := by
      rcases alike.function? with ⟨hf, hg⟩ | ⟨f, g, hf, hg, same⟩
      · rw [hf, hg]
      · obtain ⟨_, ⟨⟩, -, -, -, -, -, wrapped⟩ := Object.function_of_core same
        rw [hf, hg]
        exact wrapped
    rw [Heap.innermostAt, Heap.innermostAt, same]
    split
    · rfl
    · rename_i inner wrapped
      split
      · rename_i less
        obtain ⟨f, hf, hw⟩ := Option.bind_eq_some_iff.mp wrapped
        exact ih inner less (h.wrapped hf hw)
      · rfl
    · rfl

theorem innermost (h : rt.Resembles rt') (alike : rt.Alike rt' v) :
    rt'.heap.innermost v = rt.heap.innermost v := by
  cases v with
  | object place => exact h.innermostAt place alike
  | none | bool | int | float | text | type => rfl

theorem ownerLabel (h : rt.Resembles rt') (alike : rt.Alike rt' v) :
    rt'.ownerLabel v = rt.ownerLabel v := by
  cases v with
  | type id =>
    unfold Runtime.ownerLabel
    rw [h.types]
  | none | bool | int | float | text | object => exact h.typeName alike

theorem ownQualname (h : rt.Resembles rt') {f : Function} (hf : rt.heap.function? v = some f) :
    rt'.ownQualname f = rt.ownQualname f := by
  have shown : rt'.displayReceiver? f = rt.displayReceiver? f := by
    unfold Runtime.displayReceiver?
    cases hr : f.receiver with
    | none => rfl
    | some receiver => simp [Option.filter, (h.receiver hf hr).typeIdOf]
  unfold Runtime.ownQualname
  rw [shown]
  cases hd : rt.displayReceiver? f with
  | none => rfl
  | some receiver =>
    simp only [h.ownerLabel (h.receiver hf (Option.filter_eq_some_iff.mp hd).1)]

theorem bindingReading (h : rt.Resembles rt') {callable : Value}
    (alike : rt.Alike rt' callable) {accessor : Option Value}
    (alike' : ∀ v, accessor = some v → rt.Alike rt' v) (cls : Option TypeId) :
    rt'.bindingReading callable accessor cls = rt.bindingReading callable accessor cls := by
  unfold Runtime.bindingReading
  rw [h.bindingReceiver? alike alike']
  cases hr : rt.bindingReceiver? callable accessor cls with
  | none => rfl
  | some receiver =>
    dsimp only
    rw [h.wrapper alike (alike_of_bindingReceiver? hr alike')]

theorem classReading (h : rt.Resembles rt') (alike : rt.Alike rt' v) (name : String) :
    rt'.classReading v name = rt.classReading v name := by
  unfold Runtime.classReading
  rw [h.accessOf alike, h.types, h.noAttribute alike]
  cases hl : rt.types.lookup (rt.accessOf v).2 name with
  | none => rfl
  | some attr =>
    have found := h.found hl
    have accessor : ∀ u, (rt.accessOf v).1 = some u → rt.Alike rt' u := by
      cases v <;> rintro _ ⟨⟩ <;> exact alike
    have binds : rt'.bindsOnAccess attr = rt.bindsOnAccess attr := by
      unfold Runtime.bindsOnAccess
      rw [h.typeOf found]
    dsimp only
    rw [binds]
    split
    · exact h.bindingReading found accessor _
    · rfl

/-- A value that has attributes of its own reads them from its place. -/
theorem objectReading (h : rt.Resembles rt') (alike : rt.Alike rt' v)
    (own : rt'.ownAttributes? v = rt.ownAttributes? v) {name : String}
    (entry : (rt'.heap.entriesAt (rt.directPlace? v)).get? name =
      (rt.heap.entriesAt (rt.directPlace? v)).get? name) :
    rt'.objectReading v name = rt.objectReading v name := by
  unfold Runtime.objectReading
  rw [alike.moduleNames?, own, h.noAttribute alike]
  cases hn : rt.moduleNames? v with
  | some names =>
    rw [directPlace?_of_module hn] at entry
    dsimp only
    rw [entry]
  | none =>
    dsimp only
    rw [h.classReading alike]

/-- A function that is the same reads its attributes from its dict. -/
theorem functionReading (h : rt.Resembles rt') {place : Ref} {f : Function}
    (alike : rt.Alike rt' (.object place)) (hf : rt.heap.function? (.object place) = some f)
    {name : String}
    (entry : (rt'.heap.entriesAt (rt.directPlace? (.object place))).get? name =
      (rt.heap.entriesAt (rt.directPlace? (.object place))).get? name) :
    rt'.functionReading place f name = rt.functionReading place f name := by
  have owner :
      rt'.ownerReading (.object place) f name = rt.ownerReading (.object place) f name := by
    unfold Runtime.ownerReading
    rw [h.noAttribute alike]
  unfold Runtime.functionReading
  cases hm : f.metadata? with
  | none =>
    dsimp only
    unfold Runtime.bareReading
    rw [owner, h.ownQualname hf, h.noAttribute alike]
  | some m =>
    rw [directPlace?_of_function hf hm] at entry
    have own : rt'.ownReading place m name = rt.ownReading place m name := by
      unfold Runtime.ownReading
      rw [entry, h.noAttribute alike]
    dsimp only
    unfold Runtime.metadataReading
    rw [owner, own]

theorem directReading (h : rt.Resembles rt') (alike : rt.Alike rt' v)
    (function : rt'.baseFunction? v = rt.baseFunction? v)
    (own : rt'.ownAttributes? v = rt.ownAttributes? v) {name : String}
    (entry : (rt'.heap.entriesAt (rt.directPlace? v)).get? name =
      (rt.heap.entriesAt (rt.directPlace? v)).get? name) :
    rt'.directReading v name = rt.directReading v name := by
  have object := h.objectReading alike own entry
  unfold Runtime.directReading
  rw [function]
  cases v with
  | object place =>
    cases hf : rt.baseFunction? (.object place) with
    | none => exact object
    | some f => exact h.functionReading alike (function?_of_baseFunction? hf) entry
  | none | bool | int | float | text | type => exact object

/-- A value answers as before if the one at the end of its chain of wrappers does. -/
theorem reading_of_innermost (h : rt.Resembles rt') (sound : rt.Sound) (alike : rt.Alike rt' v)
    {name : String} (inner : rt'.directReading (rt.heap.innermost v) name =
      rt.directReading (rt.heap.innermost v) name) :
    rt'.reading v name = rt.reading v name := by
  have direct (plain : (rt.heap.function? v).bind Function.wrapped? = none) :
      rt'.directReading v name = rt.directReading v name := by
    rwa [innermost_of_direct plain] at inner
  unfold Runtime.reading
  rcases h.baseFunction? alike with ⟨hf, hg⟩ | ⟨f, g, hf, hg, same⟩
  · rw [hf, hg]
    refine direct ?_
    cases hv : rt.heap.function? v with
    | none => rfl
    | some f => simp [sound.baseFunction?_eq hv] at hf
  · obtain ⟨_, ⟨⟩, -, receiver, -, owner, -, wrapped⟩ := Object.function_of_core same
    have owners : rt'.ownerReading v g name = rt.ownerReading v f name := by
      unfold Runtime.ownerReading
      rw [owner, h.noAttribute alike]
    rw [hf, hg]
    dsimp only
    rw [wrapped]
    cases hw : f.wrapped? with
    | none => exact direct (by simp [function?_of_baseFunction? hf, hw])
    | some wrapped =>
      dsimp only
      rw [receiver, owners, h.innermost alike, inner]

end Resembles
end Runtime
end Callables
