import Mathlib.Logic.Relation
import Callables.Method
import Callables.Proofs.Hierarchy
import Callables.Release

namespace Callables

/-- Two records of the same callable: nothing that dispatch decides by is different. -/
structure Function.Alike (f g : Function) : Prop where
  entry : g.entry = f.entry
  receiver : g.receiver = f.receiver
  module : g.module = f.module
  owner : g.owner = f.owner
  typeId : g.kind.typeId = f.kind.typeId
  wrapped : g.wrapped? = f.wrapped?

namespace Function

theorem Alike.refl (f : Function) : f.Alike f := ⟨rfl, rfl, rfl, rfl, rfl, rfl⟩

theorem Alike.trans {f g h : Function} (a : f.Alike g) (b : g.Alike h) : f.Alike h :=
  ⟨b.entry.trans a.entry, b.receiver.trans a.receiver, b.module.trans a.module,
    b.owner.trans a.owner, b.typeId.trans a.typeId, b.wrapped.trans a.wrapped⟩

theorem isHost_iff (f : Function) : f.isHost = true ↔ f.kind.typeId = .function := by
  obtain ⟨_, _, _, _, _, kind⟩ := f
  cases kind <;> simp [isHost, FunctionKind.typeId] <;> decide

theorem Alike.isHost {f g : Function} (a : f.Alike g) : g.isHost = f.isHost := by
  rw [Bool.eq_iff_iff, isHost_iff, isHost_iff, a.typeId]

/-- The types of callables promise the base function layout from the start. -/
theorem promised_typeId (kind : FunctionKind) :
    Types.initial.contains kind.typeId = true ∧
      (Types.initial.info kind.typeId).flags.has .baseFunction = true := by
  have h : ∀ id ∈ [TypeId.builtinFunction, .function, .nativeFunction, .method],
      Types.initial.contains id = true ∧
        (Types.initial.info id).flags.has .baseFunction = true := by
    decide
  cases kind <;> exact h _ (by simp [FunctionKind.typeId])

theorem alike_withMetadata (f : Function) (metadata : Metadata) :
    f.Alike { f with kind := f.kind.withMetadata metadata } := by
  obtain ⟨_, _, _, _, _, kind⟩ := f
  cases kind <;> exact ⟨rfl, rfl, rfl, rfl, rfl, rfl⟩

theorem alike_watchers (f : Function) (watchers : List Int) : f.Alike { f with watchers } :=
  ⟨rfl, rfl, rfl, rfl, rfl, rfl⟩

end Function

/-- What can become of an object: entries and attributes change, and a callable stays what it
is. -/
inductive Object.Becomes : Object → Object → Prop
  | same (o : Object) : Becomes o o
  | dict (entries entries' : Dict Value) : Becomes (.dict entries) (.dict entries')
  | ofClass (type : TypeId) (attributes attributes' : Dict Value) :
      Becomes (.ofClass type attributes) (.ofClass type attributes')
  | function {f g : Function} (alike : f.Alike g) : Becomes (.function f) (.function g)

namespace Object

theorem Becomes.trans {a b c : Object} (h : a.Becomes b) (h' : b.Becomes c) : a.Becomes c := by
  cases h with
  | same => exact h'
  | dict entries entries' =>
    cases h' with
    | same => exact .dict entries entries'
    | dict _ entries'' => exact .dict entries entries''
  | ofClass type attributes attributes' =>
    cases h' with
    | same => exact .ofClass type attributes attributes'
    | ofClass _ _ attributes'' => exact .ofClass type attributes attributes''
  | function alike =>
    cases h' with
    | same => exact .function alike
    | function alike' => exact .function (alike.trans alike')

theorem Becomes.typeId {a b : Object} (h : a.Becomes b) : b.typeId = a.typeId := by
  cases h with
  | same | dict | ofClass => rfl
  | function alike => exact alike.typeId

/-- A callable becomes a record of the same callable. -/
theorem Becomes.of_function {f : Function} {o : Object} (h : (Object.function f).Becomes o) :
    ∃ g, o = .function g ∧ f.Alike g := by
  cases h with
  | same => exact ⟨f, rfl, .refl f⟩
  | @function _ g alike => exact ⟨g, rfl, alike⟩

def classes : Object → List TypeId
  | .ofClass type _ => [type]
  | .function f => f.owner.toList
  | _ => []

end Object

namespace Heap

theorem get?_of_function? {h : Heap} {v : Value} {f : Function} (hf : h.function? v = some f) :
    ∃ r, v = .object r ∧ h.get? r = some (.function f) := by
  cases v with
  | object r =>
    obtain ⟨o, ho, hof⟩ := Option.bind_eq_some_iff.mp hf
    cases o with
    | function f' =>
      obtain rfl : f' = f := by simpa [Object.function?] using hof
      exact ⟨r, rfl, ho⟩
    | _ => simp [Object.function?] at hof
  | none | bool | int | float | text | type => simp [function?, object?] at hf

theorem function?_of_get? {h : Heap} {r : Ref} {f : Function}
    (hf : h.get? r = some (.function f)) : h.function? (.object r) = some f := by
  simp [function?, object?, hf, Object.function?]

end Heap

namespace Runtime

/-- A value that means something: its type is registered, or its object is there. -/
def Knows (rt : Runtime) : Value → Prop
  | .type id => rt.types.contains id = true
  | .object r => ∃ o, rt.heap.get? r = some o
  | _ => True

def KnowsAll (rt : Runtime) (values : List Value) : Prop := ∀ v ∈ values, rt.Knows v

section Knows

variable (rt : Runtime)

@[simp] theorem knows_none : rt.Knows .none := trivial

@[simp] theorem knows_int (i : Int64) : rt.Knows (.int i) := trivial

@[simp] theorem knows_text (t : Text) : rt.Knows (.text t) := trivial

theorem knows_object_iff {r : Ref} : rt.Knows (.object r) ↔ (rt.heap.get? r).isSome = true :=
  Option.isSome_iff_exists.symm

@[simp] theorem knowsAll_nil : rt.KnowsAll [] := fun _ h => by cases h

@[simp] theorem knowsAll_cons (v : Value) (values : List Value) :
    rt.KnowsAll (v :: values) ↔ rt.Knows v ∧ rt.KnowsAll values := List.forall_mem_cons

@[simp] theorem knowsAll_append (a b : List Value) :
    rt.KnowsAll (a ++ b) ↔ rt.KnowsAll a ∧ rt.KnowsAll b := List.forall_mem_append

theorem knows_getD {rt : Runtime} {value : Option Value} (h : ∀ v, value = some v → rt.Knows v) :
    rt.Knows (value.getD .none) := by
  cases value with
  | none => trivial
  | some v => exact h v rfl

end Knows

end Runtime

/-- A callable that keeps the promises of its kind: a receiver conforms to the owner class, and a
host-language function has neither. -/
structure Function.Fits (rt : Runtime) (f : Function) : Prop where
  conforms : ∀ {owner receiver}, f.owner = some owner → f.receiver = some receiver →
    rt.conforms f.entry owner receiver = true
  host : f.isHost = true → f.entry = .hostFunction ∧ f.owner = none ∧ f.receiver = none

structure Object.Sound (rt : Runtime) (o : Object) : Prop where
  references : rt.KnowsAll o.references
  classes : ∀ id ∈ o.classes, rt.types.contains id = true
  fits : ∀ f, o = .function f → f.Fits rt

namespace Object.Sound

variable {rt : Runtime}

/-- Of an object that is no callable and has no class, only the references count. -/
theorem of_references {o : Object} (h : rt.KnowsAll o.references) (classes : o.classes = [])
    (plain : o.function? = none) : o.Sound rt := by
  refine ⟨h, by simp [classes], ?_⟩
  rintro f rfl
  simp [Object.function?] at plain

theorem tuple {items : List Value} (h : rt.KnowsAll items) : (Object.tuple items).Sound rt :=
  of_references h rfl rfl

theorem dict {entries : Dict Value} (h : rt.KnowsAll entries.values) :
    (Object.dict entries).Sound rt :=
  of_references h rfl rfl

end Object.Sound

namespace Runtime

/-- What every activity may rely on. -/
structure Sound (rt : Runtime) : Prop where
  lawful : rt.types.Lawful
  numbered : rt.types.Numbered
  builtin : Types.initial.Grows rt.types
  live : ∀ {r o}, rt.heap.get? r = some o → o.Sound rt
  attributes : ∀ {id t}, rt.types.get? id = some t → rt.KnowsAll t.attributes.values

structure Grows (rt rt' : Runtime) : Prop where
  types : rt.types.Grows rt'.types
  heap : ∀ {r o}, rt.heap.get? r = some o → ∃ o', rt'.heap.get? r = some o' ∧ o.Becomes o'

theorem Grows.refl (rt : Runtime) : rt.Grows rt :=
  ⟨.refl _, fun {_ o} h => ⟨o, h, .same o⟩⟩

theorem Grows.trans {a b c : Runtime} (h : a.Grows b) (h' : b.Grows c) : a.Grows c := by
  refine ⟨h.types.trans h'.types, ?_⟩
  intro r o ho
  obtain ⟨o', ho', hb⟩ := h.heap ho
  obtain ⟨o'', ho'', hb'⟩ := h'.heap ho'
  exact ⟨o'', ho'', hb.trans hb'⟩

theorem Grows.knows {rt rt' : Runtime} (grows : rt.Grows rt') {v : Value} (hv : rt.Knows v) :
    rt'.Knows v := by
  cases v with
  | type id => exact grows.types.contains hv
  | object r =>
    obtain ⟨o, ho⟩ := hv
    obtain ⟨o', ho', _⟩ := grows.heap ho
    exact ⟨o', ho'⟩
  | none | bool | int | float | text => trivial

theorem Grows.knowsAll {rt rt' : Runtime} (grows : rt.Grows rt') {values : List Value}
    (h : rt.KnowsAll values) : rt'.KnowsAll values :=
  fun v hv => grows.knows (h v hv)

theorem Grows.typeIdOf {rt rt' : Runtime} (grows : rt.Grows rt') {v : Value} (hv : rt.Knows v) :
    rt'.typeIdOf v = rt.typeIdOf v := by
  cases v with
  | object r =>
    obtain ⟨o, ho⟩ := hv
    obtain ⟨o', ho', hb⟩ := grows.heap ho
    simp [Runtime.typeIdOf, ho, ho', hb.typeId]
  | none | bool | int | float | text | type => rfl

/-- The function types promise the base function layout from the start. -/
theorem baseFunction?_of_builtin {rt : Runtime} (builtin : Types.initial.Grows rt.types) {v : Value}
    {f : Function} (hf : rt.heap.function? v = some f) : rt.baseFunction? v = some f := by
  obtain ⟨r, rfl, ho⟩ := Heap.get?_of_function? hf
  have hi : rt.typeIdOf (.object r) = f.kind.typeId := by
    simp [Runtime.typeIdOf, ho, Object.typeId]
  obtain ⟨hc, hp⟩ := Function.promised_typeId f.kind
  have hk := (builtin.info hc).flags _ hp
  simp only [Runtime.baseFunction?, Runtime.typeOf, hi, hk, if_true, hf]

namespace Sound

variable {rt rt' : Runtime}

theorem contains_builtin (sound : rt.Sound) {id : TypeId}
    (h : Types.initial.contains id = true) : rt.types.contains id = true :=
  sound.builtin.contains h

theorem contains_typeIdOf (sound : rt.Sound) (v : Value) :
    rt.types.contains (rt.typeIdOf v) = true := by
  have plain : ∀ id ∈ [TypeId.object, .type, .none, .bool, .int, .float, .text, .tuple, .dict,
      .module, .code, .nativeClosure], rt.types.contains id = true := by
    have h : ∀ id ∈ [TypeId.object, .type, .none, .bool, .int, .float, .text, .tuple, .dict,
        .module, .code, .nativeClosure], Types.initial.contains id = true := by
      decide
    exact fun id hi => sound.contains_builtin (h id hi)
  cases v with
  | object r =>
    simp only [Runtime.typeIdOf]
    cases ho : rt.heap.get? r with
    | none => exact plain _ (by simp)
    | some o =>
      cases o with
      | ofClass type attributes => exact (sound.live ho).classes type (by simp [Object.classes])
      | function f => exact sound.contains_builtin (Function.promised_typeId f.kind).1
      | tuple | dict | module | code | closure => exact plain _ (by simp [Object.typeId])
  | none | bool | int | float | text | type => exact plain _ (by simp [Runtime.typeIdOf])

theorem baseFunction?_eq (sound : rt.Sound) {v : Value} {f : Function}
    (hf : rt.heap.function? v = some f) : rt.baseFunction? v = some f :=
  baseFunction?_of_builtin sound.builtin hf

theorem fits (sound : rt.Sound) {v : Value} {f : Function}
    (hf : rt.heap.function? v = some f) : f.Fits rt := by
  obtain ⟨r, rfl, ho⟩ := Heap.get?_of_function? hf
  exact (sound.live ho).fits f rfl

end Sound

theorem knows_of_function? {rt : Runtime} {v : Value} {f : Function}
    (hf : rt.heap.function? v = some f) : rt.Knows v := by
  obtain ⟨r, rfl, ho⟩ := Heap.get?_of_function? hf
  exact ⟨_, ho⟩

theorem function?_of_baseFunction? {rt : Runtime} {v : Value} {f : Function}
    (h : rt.baseFunction? v = some f) : rt.heap.function? v = some f := by
  unfold baseFunction? at h
  split at h
  · exact h
  · simp at h

/-- Whether a receiver conforms does not change any more. -/
theorem Grows.conforms {rt rt' : Runtime} (grows : rt.Grows rt') (sound : rt.Sound) (entry : Entry)
    (owner : TypeId) {receiver : Value} (hr : rt.Knows receiver) :
    rt'.conforms entry owner receiver = rt.conforms entry owner receiver := by
  have hs {id : TypeId} (hc : rt.types.contains id = true) :
      rt'.types.isSubtype id owner = rt.types.isSubtype id owner := by
    have he := grows.types.info hc
    simp only [Types.isSubtype, TypeInfo.isSubtype, he.id, he.ancestors]
  have hi : rt'.isInstance receiver owner = rt.isInstance receiver owner := by
    simp only [Runtime.isInstance, Runtime.typeOf, grows.typeIdOf hr]
    exact hs (sound.contains_typeIdOf receiver)
  unfold Runtime.conforms
  rw [hi]
  cases receiver with
  | type id => simp only [hs hr]
  | none | bool | int | float | text | object => rfl

theorem Grows.fits {rt rt' : Runtime} (grows : rt.Grows rt') (sound : rt.Sound) {f : Function}
    (known : rt.KnowsAll (Object.function f).references) (h : f.Fits rt) : f.Fits rt' := by
  refine ⟨?_, h.host⟩
  intro owner receiver ho hr
  have hk : rt.Knows receiver :=
    known receiver (by simp [Object.references, Function.commonReferences, hr])
  rw [grows.conforms sound f.entry owner hk]
  exact h.conforms ho hr

theorem Grows.object {rt rt' : Runtime} (grows : rt.Grows rt') (sound : rt.Sound) {o : Object}
    (h : o.Sound rt) : o.Sound rt' := by
  refine ⟨grows.knowsAll h.references, fun id hi => grows.types.contains (h.classes id hi), ?_⟩
  rintro f rfl
  exact grows.fits sound h.references (h.fits f rfl)

/-- A runtime stays sound if all that is new in it is sound. -/
theorem Sound.grow {rt rt' : Runtime} (sound : rt.Sound) (grows : rt.Grows rt')
    (lawful : rt'.types.Lawful) (numbered : rt'.types.Numbered)
    (live : ∀ {r o}, rt'.heap.get? r = some o → o.Sound rt)
    (attributes : ∀ {id t}, rt'.types.get? id = some t → rt.KnowsAll t.attributes.values) :
    rt'.Sound :=
  ⟨lawful, numbered, sound.builtin.trans grows.types, fun h => grows.object sound (live h),
    fun h => grows.knowsAll (attributes h)⟩

/-- New objects and objects of another shape, under the same types. -/
theorem Sound.grow_heap {rt rt' : Runtime} (sound : rt.Sound) (grows : rt.Grows rt')
    (types : rt'.types = rt.types) (live : ∀ {r o}, rt'.heap.get? r = some o → o.Sound rt) :
    rt'.Sound := by
  apply sound.grow grows (types ▸ sound.lawful) (types ▸ sound.numbered) live
  intro id t ht
  exact sound.attributes (types ▸ ht)

theorem Sound.grow_types {rt rt' : Runtime} (sound : rt.Sound) (grows : rt.Grows rt')
    (heap : rt'.heap = rt.heap) (lawful : rt'.types.Lawful) (numbered : rt'.types.Numbered)
    (attributes : ∀ {id t}, rt'.types.get? id = some t → rt.KnowsAll t.attributes.values) :
    rt'.Sound := by
  apply sound.grow grows lawful numbered _ attributes
  intro r o ho
  exact sound.live (heap ▸ ho)

theorem Sound.modifyAttributes {rt rt' : Runtime} (sound : rt.Sound) (grows : rt.Grows rt')
    {id : TypeId} {f : Dict Value → Dict Value}
    (types : rt'.types = rt.types.modifyAttributes id f) (heap : rt'.heap = rt.heap)
    (known : ∀ d, rt.KnowsAll (Dict.values d) → rt.KnowsAll (f d).values) : rt'.Sound := by
  apply sound.grow_types grows heap
  · exact types ▸ Types.lawful_modifyAttributes sound.lawful id f
  · exact types ▸ sound.numbered.modify id _
  · intro other t ht
    rw [types] at ht
    obtain ⟨t', ht', rfl | rfl⟩ := Types.get?_modifyAttributes ht
    · exact sound.attributes ht'
    · exact known _ (sound.attributes ht')

/-- One thing that an activity can do to a runtime. What is not told, a change may do as it
likes. -/
inductive Change (rt : Runtime) : Runtime → Prop
  | quiet {rt'} (config : rt'.config = rt.config) (types : rt'.types = rt.types)
      (heap : rt'.heap = rt.heap) : Change rt rt'
  | allocate {rt'} (o : Object) (sound : o.Sound rt) (config : rt'.config = rt.config)
      (types : rt'.types = rt.types) (heap : rt'.heap = rt.heap.push o) : Change rt rt'
  | replace {rt'} (r : Ref) (old new : Object) (found : rt.heap.get? r = some old)
      (becomes : old.Becomes new) (sound : new.Sound rt) (config : rt'.config = rt.config)
      (types : rt'.types = rt.types) (heap : rt'.heap = rt.heap.set r new) : Change rt rt'
  | setAttribute {rt'} (id : TypeId) (name : String) {value : Value} (known : rt.Knows value)
      (config : rt'.config = rt.config)
      (types : rt'.types = rt.types.modifyAttributes id (·.set name value))
      (heap : rt'.heap = rt.heap) : Change rt rt'
  | eraseAttribute {rt'} (id : TypeId) (name : String) (config : rt'.config = rt.config)
      (types : rt'.types = rt.types.modifyAttributes id (·.erase name))
      (heap : rt'.heap = rt.heap) : Change rt rt'
  | addFlags {rt'} (id : TypeId) (flags : TypeFlags) (config : rt'.config = rt.config)
      (types : rt.types.addFlags id flags = .ok rt'.types) (heap : rt'.heap = rt.heap) :
      Change rt rt'

abbrev Changes : Runtime → Runtime → Prop := Relation.ReflTransGen Change

theorem Change.grows {rt rt' : Runtime} (change : rt.Change rt') : rt.Grows rt' := by
  have same {h : Heap} {r : Ref} {o : Object} (ho : h.get? r = some o) :
      ∃ o', h.get? r = some o' ∧ o.Becomes o' := ⟨o, ho, .same o⟩
  cases change with
  | quiet _ types heap => exact ⟨types ▸ .refl _, heap ▸ same⟩
  | allocate o _ _ types heap =>
    refine ⟨types ▸ .refl _, ?_⟩
    intro r old ho
    rw [heap]
    exact ⟨old, Heap.get?_push_of_some o ho, .same old⟩
  | replace r old new found becomes _ _ types heap =>
    refine ⟨types ▸ .refl _, ?_⟩
    intro r' o ho
    rw [heap]
    by_cases hr : r' = r
    · subst hr
      obtain rfl := Option.some.inj (found.symm.trans ho)
      exact ⟨new, Heap.get?_set_self new (Heap.lt_size_of_get? ho), becomes⟩
    · exact ⟨o, (Heap.get?_set_of_ne _ new hr).trans ho, .same o⟩
  | setAttribute id name _ _ types heap =>
    exact ⟨types ▸ Types.grows_modifyAttributes _ id _, heap ▸ same⟩
  | eraseAttribute id name _ types heap =>
    exact ⟨types ▸ Types.grows_modifyAttributes _ id _, heap ▸ same⟩
  | addFlags id flags _ types heap =>
    exact ⟨Types.addFlags_eq types ▸ Types.grows_modify _ id (Types.evolves_addFlags flags),
      heap ▸ same⟩

theorem Sound.change {rt rt' : Runtime} (sound : rt.Sound) (change : rt.Change rt') :
    rt'.Sound := by
  have grows := change.grows
  cases change with
  | quiet _ types heap =>
    apply sound.grow_heap grows types
    intro r o ho
    exact sound.live (heap ▸ ho)
  | allocate o hs _ types heap =>
    apply sound.grow_heap grows types
    intro r o' ho
    rw [heap, Heap.get?_push] at ho
    split at ho
    · exact Option.some.inj ho ▸ hs
    · exact sound.live ho
  | replace r old new found _ hs _ types heap =>
    apply sound.grow_heap grows types
    intro r' o ho
    rw [heap] at ho
    by_cases hr : r' = r
    · subst hr
      rw [Heap.get?_set_self new (Heap.lt_size_of_get? found)] at ho
      exact Option.some.inj ho ▸ hs
    · rw [Heap.get?_set_of_ne _ new hr] at ho
      exact sound.live ho
  | setAttribute id name known _ types heap =>
    apply sound.modifyAttributes grows types heap
    intro d hd v hv
    rcases Dict.mem_values_set hv with rfl | hv
    · exact known
    · exact hd v hv
  | eraseAttribute id name _ types heap =>
    apply sound.modifyAttributes grows types heap
    intro d hd v hv
    exact hd v (Dict.mem_values_erase hv)
  | addFlags id flags _ types heap =>
    have he := Types.addFlags_eq types
    apply sound.grow_types grows heap
    · exact he ▸ Types.lawful_modify sound.lawful id (Types.evolves_addFlags flags)
    · exact he ▸ sound.numbered.modify id _
    · intro other t ht
      rw [he] at ht
      obtain ⟨t', ht', rfl | rfl⟩ := Types.get?_modify ht
      · exact sound.attributes ht'
      · have ha := sound.attributes ht'
        exact ha

theorem Change.created {rt rt' : Runtime} (change : rt.Change rt') :
    rt'.types.created = rt.types.created := by
  cases change with
  | quiet _ types _ | allocate _ _ _ types _ | replace _ _ _ _ _ _ _ types _ => rw [types]
  | setAttribute _ _ _ _ types _ | eraseAttribute _ _ _ types _ =>
    rw [types]
    simp [Types.created, Types.modifyAttributes]
  | addFlags _ _ _ types _ =>
    rw [Types.addFlags_eq types]
    simp [Types.created]

theorem Changes.created {rt rt' : Runtime} (changes : Changes rt rt') :
    rt'.types.created = rt.types.created := by
  induction changes with
  | refl => rfl
  | tail _ change ih => exact change.created.trans ih

theorem Changes.grows {rt rt' : Runtime} (changes : Changes rt rt') : rt.Grows rt' := by
  induction changes with
  | refl => exact .refl rt
  | tail _ change ih => exact ih.trans change.grows

theorem Sound.changes {rt rt' : Runtime} (sound : rt.Sound) (changes : Changes rt rt') :
    rt'.Sound := by
  induction changes with
  | refl => exact sound
  | tail _ change ih => exact ih.change change

end Runtime
end Callables
