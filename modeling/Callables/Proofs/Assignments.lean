import Callables.Operation
import Callables.Proofs.Conduct

namespace Callables

namespace MetadataField

def special : MetadataField → SpecialAttribute
  | .name => .name
  | .qualname => .qualname
  | .doc => .doc
  | .module => .module
  | .code => .code
  | .defaults => .defaults
  | .keywordDefaults => .keywordDefaults
  | .annotations => .annotations
  | .attributes => .attributes

def isHostOnly : MetadataField → Bool
  | .code | .defaults | .keywordDefaults | .annotations => true
  | .name | .qualname | .doc | .module | .attributes => false

theorem special_inj {a b : MetadataField} (h : a.special = b.special) : a = b := by
  cases a <;> cases b <;> first | rfl | cases h

theorem isReadOnly_special (field : MetadataField) : field.special.isReadOnly = false := by
  cases field <;> rfl

def Takes (h : Heap) (f : Function) (m : Metadata) (value : Value) : MetadataField → Prop
  | .name | .qualname => ∃ t, value = .text t
  | .doc | .module => True
  | .code => f.isHost = true ∧ ∃ c, h.code? value = some c ∧
      c.freeVariables.length = (h.itemsAt m.closure).length
  | .defaults => f.isHost = true ∧ (value = .none ∨ (h.tuple? value).isSome = true)
  | .keywordDefaults | .annotations =>
    f.isHost = true ∧ (value = .none ∨ (h.dict? value).isSome = true)
  | .attributes => (h.dict? value).isSome = true

theorem Takes.host {h : Heap} {f : Function} {m : Metadata} {value : Value}
    {field : MetadataField} (takes : field.Takes h f m value) (hostOnly : field.isHostOnly = true) :
    f.isHost = true := by
  cases field with
  | code | defaults | keywordDefaults | annotations => exact takes.1
  | name | qualname | doc | module | attributes => cases hostOnly

def fits (h : Heap) (m : Metadata) (value : Value) : MetadataField → Bool
  | .name | .qualname => value.asText?.isSome
  | .doc | .module => true
  | .code => (h.code? value).any fun c =>
      c.freeVariables.length == (h.itemsAt m.closure).length
  | .defaults => value.isNone || (h.tuple? value).isSome
  | .keywordDefaults | .annotations => value.isNone || (h.dict? value).isSome
  | .attributes => (h.dict? value).isSome

def fault (h : Heap) (m : Metadata) (name : String) (value : Value) : MetadataField → CallError
  | .name | .qualname => .typeFault (.attributeKind name "string object")
  | .doc | .module => .readOnlyAttribute name
  | .code =>
    match h.code? value with
    | some c =>
      let cells := (h.itemsAt m.closure).length
      .raised "ValueError"
        (s!"{m.name.content}() requires a code object with {cells} free vars, " ++
          s!"not {c.freeVariables.length}")
    | none => .typeFault (.attributeKind "__code__" "code object")
  | .defaults => .typeFault (.attributeKind name "tuple object")
  | .keywordDefaults | .annotations => .typeFault (.attributeKind name "dict object")
  | .attributes => .typeFault (.attributeKind name "dictionary")

theorem takes_iff {h : Heap} {f : Function} {m : Metadata} {value : Value}
    {field : MetadataField} :
    field.Takes h f m value ↔
      (field.isHostOnly = true → f.isHost = true) ∧ field.fits h m value = true := by
  have absent : value.isNone = true ↔ value = .none := by cases value <;> simp [Value.isNone]
  cases field with
  | name | qualname => cases value <;> simp [Takes, fits, isHostOnly, Value.asText?]
  | doc | module => simp [Takes, fits, isHostOnly]
  | attributes => simp [Takes, fits, isHostOnly]
  | code => simp [Takes, fits, isHostOnly, Option.any_eq_true]
  | defaults | keywordDefaults | annotations => simp [Takes, fits, isHostOnly, absent]

end MetadataField

namespace SpecialAttribute

def field? : SpecialAttribute → Option MetadataField
  | .name => some .name
  | .qualname => some .qualname
  | .doc => some .doc
  | .module => some .module
  | .code => some .code
  | .defaults => some .defaults
  | .keywordDefaults => some .keywordDefaults
  | .annotations => some .annotations
  | .attributes => some .attributes
  | .owner | .receiver | .wrapped | .globals | .closure => none

theorem field?_eq_some_iff {special : SpecialAttribute} {field : MetadataField} :
    special.field? = some field ↔ special = field.special := by
  cases special <;> cases field <;> simp [field?, MetadataField.special]

end SpecialAttribute

theorem Heap.object_of_view {α : Type} {h : Heap} {v : Value} (view : Object → Option α)
    (seen : ((h.object? v).bind view).isSome = true) : ∃ r, v = .object r := by
  cases v with
  | object r => exact ⟨r, rfl⟩
  | none | bool | int | float | text | type => cases seen

/-- A name stands for one special attribute and no other name does. -/
theorem SpecialAttribute.named?_inj {name name' : String} {special : SpecialAttribute}
    (h : named? name = some special) (h' : named? name' = some special) : name = name' := by
  have single : ∀ e ∈ names, ∀ e' ∈ names, e.2 = e'.2 → e.1 = e'.1 := by decide
  obtain ⟨e, he, hs⟩ := Option.map_eq_some_iff.mp h
  obtain ⟨e', he', hs'⟩ := Option.map_eq_some_iff.mp h'
  have named : e.1 = name := by simpa using List.find?_some he
  have named' : e'.1 = name' := by simpa using List.find?_some he'
  have same := single e (List.mem_of_find?_eq_some he) e' (List.mem_of_find?_eq_some he')
    (hs.trans hs'.symm)
  exact named.symm.trans (same.trans named')

namespace Metadata

def at? (m : Metadata) : MetadataField → Option Value
  | .name => some (.text m.name)
  | .qualname => some (.text m.qualname)
  | .doc => some m.doc
  | .module => m.module
  | .code => m.code.map .object
  | .defaults => m.defaults.map .object
  | .keywordDefaults => m.keywordDefaults.map .object
  | .annotations => m.annotations.map .object
  | .attributes => m.attributes.map .object

structure SameBut (field : MetadataField) (m m' : Metadata) : Prop where
  others : ∀ other, other ≠ field → m'.at? other = m.at? other
  globals : m'.globals = m.globals
  closure : m'.closure = m.closure

theorem SameBut.code {m m' : Metadata} {field : MetadataField} (same : m.SameBut field m')
    (other : MetadataField.code ≠ field) : m'.code = m.code :=
  Option.map_injective (fun _ _ => Value.object.inj) (same.others .code other)

theorem SameBut.annotations {m m' : Metadata} {field : MetadataField} (same : m.SameBut field m')
    (other : MetadataField.annotations ≠ field) : m'.annotations = m.annotations :=
  Option.map_injective (fun _ _ => Value.object.inj) (same.others .annotations other)

theorem SameBut.attributes {m m' : Metadata} {field : MetadataField} (same : m.SameBut field m')
    (other : MetadataField.attributes ≠ field) : m'.attributes = m.attributes :=
  Option.map_injective (fun _ _ => Value.object.inj) (same.others .attributes other)

theorem sameBut_of_set? {m m' : Metadata} {h : Heap} {field : MetadataField} {value : Value}
    (set : m.set? h field value = some m') : m.SameBut field m' := by
  cases field with
  | name | qualname | code | attributes =>
    obtain ⟨_, -, rfl⟩ := Option.map_eq_some_iff.mp set
    exact ⟨fun other different => by cases other <;> first | rfl | exact absurd rfl different,
      rfl, rfl⟩
  | doc | module | defaults | keywordDefaults | annotations =>
    obtain rfl := Option.some.inj set
    exact ⟨fun other different => by cases other <;> first | rfl | exact absurd rfl different,
      rfl, rfl⟩

def withDict (field : MetadataField) (dict : Ref) (m : Metadata) : Metadata :=
  match field with
  | .attributes => { m with attributes := some dict }
  | .annotations => { m with annotations := some dict }
  | _ => m

/-- What can be set and fits is what the field holds from then on; annotations and defaults can also
be cleared. -/
theorem held_of_set? {m m' : Metadata} {h : Heap} {field : MetadataField} {value : Value}
    (fits : field.fits h m value = true) (set : m.set? h field value = some m') :
    (m'.at? field).getD .none = value := by
  have object {α : Type} {view : Object → Option α}
      (seen : ((h.object? value).bind view).isSome = true) : ∃ r, value = .object r :=
    Heap.object_of_view view seen
  cases field with
  | name | qualname =>
    obtain ⟨t, ht, rfl⟩ := Option.map_eq_some_iff.mp set
    cases value with
    | text => exact congrArg Value.text (Option.some.inj ht).symm
    | none | bool | int | float | type | object => cases ht
  | doc | module =>
    obtain rfl := Option.some.inj set
    rfl
  | code | attributes =>
    obtain ⟨r, hr, rfl⟩ := Option.map_eq_some_iff.mp set
    split at hr
    · cases value with
      | object => exact congrArg Value.object (Option.some.inj hr).symm
      | none | bool | int | float | text | type => cases hr
    · cases hr
  | defaults | keywordDefaults | annotations =>
    obtain rfl := Option.some.inj set
    dsimp only [at?]
    split
    · rename_i seen
      obtain ⟨r, rfl⟩ := object seen
      rfl
    · rename_i unseen
      cases value with
      | none => rfl
      | bool | int | float | text | type | object =>
        simp [MetadataField.fits, Value.isNone, unseen] at fits

theorem exists_set? {m : Metadata} {h : Heap} {field : MetadataField} {value : Value}
    (fits : field.fits h m value = true) : ∃ m', m.set? h field value = some m' := by
  have object {α : Type} {view : Object → Option α}
      (seen : ((h.object? value).bind view).isSome = true) : ∃ r, value = .object r :=
    Heap.object_of_view view seen
  cases field with
  | name | qualname =>
    obtain ⟨t, ht⟩ := Option.isSome_iff_exists.mp fits
    exact ⟨_, by rw [set?, ht]; rfl⟩
  | doc | module | defaults | keywordDefaults | annotations => exact ⟨_, rfl⟩
  | code =>
    obtain ⟨c, hc, -⟩ := (Option.any_eq_true _ _).mp fits
    obtain ⟨r, rfl⟩ := object (by rw [← Heap.code?, hc]; rfl)
    simp [set?, hc, Value.asObject?]
  | attributes =>
    obtain ⟨r, rfl⟩ := object fits
    have there : (h.dict? (.object r)).isSome = true := fits
    simp [set?, there, Value.asObject?]

end Metadata

def Function.withMetadata (f : Function) (m : Metadata) : Function :=
  { f with kind := f.kind.withMetadata m }

def Function.assign (f : Function) (h : Heap) (m : Metadata) (special : SpecialAttribute)
    (name : String) (value : Value) : Except CallError Metadata :=
  match special.field? with
  | none => .error (.readOnlyAttribute name)
  | some field =>
    if field.isHostOnly && !f.isHost then .error (.readOnlyAttribute name)
    else
      match field.fits h m value, m.set? h field value with
      | true, some m' => .ok m'
      | _, _ => .error (field.fault h m name value)

namespace Function

variable {f : Function} {h : Heap} {m m' : Metadata} {special : SpecialAttribute} {name : String}
  {value : Value}

/-- What is assigned is a field that takes the value and holds it from then on. -/
theorem assign_ok (assigned : f.assign h m special name value = .ok m') :
    ∃ field : MetadataField, special = field.special ∧ field.Takes h f m value ∧
      m.set? h field value = some m' ∧ (m'.at? field).getD .none = value := by
  unfold assign at assigned
  cases hf : special.field? with
  | none =>
    rw [hf] at assigned
    cases assigned
  | some field =>
    simp only [hf] at assigned
    split at assigned
    · cases assigned
    · rename_i allowed
      split at assigned
      · rename_i fits set
        obtain rfl := Except.ok.inj assigned
        refine ⟨field, SpecialAttribute.field?_eq_some_iff.mp hf,
          MetadataField.takes_iff.mpr ⟨fun hostOnly => ?_, fits⟩, set,
          Metadata.held_of_set? fits set⟩
        simpa [hostOnly] using allowed
      · cases assigned

theorem assign_error {cause : CallError} (refused : f.assign h m special name value = .error cause)
    (field : MetadataField) (named : special = field.special) : ¬ field.Takes h f m value := by
  intro takes
  obtain ⟨allowed, fits⟩ := MetadataField.takes_iff.mp takes
  obtain ⟨m', set⟩ := Metadata.exists_set? fits
  unfold assign at refused
  rw [SpecialAttribute.field?_eq_some_iff.mpr named] at refused
  dsimp only at refused
  rw [fits, set, if_neg] at refused
  · cases refused
  · cases hostOnly : field.isHostOnly with
    | false => simp
    | true => simp [allowed hostOnly]

end Function

inductive Assignment
  | failure (cause : CallError)
  | object (r : Ref) (new : Object)
  | entry (place : Ref)
  | dict (r : Ref)
  | type (id : TypeId)

namespace Assignment

def run (name : String) (value : Value) : Assignment → Activity Unit
  | .failure cause => throw cause
  | .object r new => Activity.store r new
  | .entry place => Activity.setInDict place name value
  | .dict r => do
    let made ← Activity.dictFor r none (Metadata.withDict .attributes)
    Activity.setInDict made name value
  | .type id => Activity.setTypeAttribute id name value

end Assignment

namespace Runtime

def specialAssignment (rt : Runtime) (r : Ref) (f : Function) (m : Metadata)
    (special : SpecialAttribute) (name : String) (value : Value) : Assignment :=
  match f.assign rt.heap m special name value with
  | .ok m' => .object r (.function (f.withMetadata m'))
  | .error cause => .failure cause

def functionAssignment (rt : Runtime) (r : Ref) (f : Function) (name : String) (value : Value) :
    Assignment :=
  match SpecialAttribute.named? name, f.metadata? with
  | none, none => .failure (rt.noAttribute (.object r) name)
  | none, some m =>
    match m.attributes with
    | some dict => .entry dict
    | none => .dict r
  | some special, some m => rt.specialAssignment r f m special name value
  | some special, none =>
    match special with
    | .attributes | .code | .defaults | .keywordDefaults | .annotations =>
      .failure (rt.noAttribute (.object r) name)
    | _ => .failure (.readOnlyAttribute name)

def assignment (rt : Runtime) (v : Value) (name : String) (value : Value) : Assignment :=
  match v, rt.baseFunction? v with
  | .object r, some f => rt.functionAssignment r f name value
  | .type id, _ =>
    if rt.types.hasFlag id .heapType then .type id
    else .failure (.typeFault (.immutableType name (rt.types.info id).name))
  | .object r, none =>
    match rt.heap.get? r with
    | some (.module _ names) => .entry names
    | some (.ofClass type attributes) =>
      .object r (.ofClass type (attributes.set name value))
    | _ => .failure (rt.noAttribute v name)
  | _, _ => .failure (rt.noAttribute v name)

def storing (rt : Runtime) (r : Ref) (old new : Object) : Runtime :=
  { rt with heap := rt.heap.set r new, ledger := rt.ledger.push (.change old new) }

end Runtime

namespace Activity

variable {rt : Runtime}

theorem run_store {r : Ref} {old : Object} (found : rt.heap.get? r = some old) (new : Object) :
    (store r new).run rt = (.ok (), rt.storing r old new) := by
  unfold store
  rw [run_get, found]
  rfl

theorem run_setInDict {dict : Ref} {entries : Dict Value}
    (found : rt.heap.get? dict = some (.dict entries)) (name : String) (value : Value) :
    (setInDict dict name value).run rt =
      (.ok (), rt.storing dict (.dict entries) (.dict (entries.set name value))) := by
  unfold setInDict
  rw [run_get, found]
  exact run_store found _

theorem run_modifyMetadata {r : Ref} {f : Function} {m : Metadata}
    (here : rt.heap.get? r = some (.function f)) (hm : f.metadata? = some m)
    (change : Metadata → Metadata) :
    (modifyMetadata r change).run rt =
      (.ok (), rt.storing r (.function f) (.function (f.withMetadata (change m)))) := by
  unfold modifyMetadata
  rw [run_get, here]
  dsimp only
  rw [hm]
  exact run_store here _

section Special

variable {r : Ref} {f : Function} {m : Metadata} {value : Value}

/-- Fields that are optional take references to objects of their sort, and none. -/
theorem run_assignOptional (here : rt.heap.get? r = some (.function f))
    (hm : f.metadata? = some m) {isWanted : Bool}
    (object : isWanted = true → ∃ place, value = .object place) (name wanted : String)
    (change : Option Ref → Metadata → Metadata) :
    (do
      let o ← expectOptional value isWanted name wanted
      modifyMetadata r (change o)).run rt =
      ((match value.isNone || isWanted with
        | true => Assignment.object r
          (.function (f.withMetadata (change (if isWanted then value.asObject? else none) m)))
        | false => .failure (.typeFault (.attributeKind name wanted))).run name value).run rt := by
  cases isWanted with
  | true =>
    obtain ⟨place, rfl⟩ := object rfl
    exact (run_modifyMetadata here hm _).trans (run_store here _).symm
  | false =>
    cases value with
    | none => exact (run_modifyMetadata here hm _).trans (run_store here _).symm
    | bool | int | float | text | type | object => rfl

theorem run_setCode (here : rt.heap.get? r = some (.function f)) (hm : f.metadata? = some m)
    (host : f.isHost = true) (name : String) :
    (setCode r m value).run rt =
      ((rt.specialAssignment r f m .code name value).run name value).run rt := by
  have object : (rt.heap.code? value).isSome = true → ∃ place, value = .object place :=
    Heap.object_of_view Object.code?
  unfold setCode Runtime.specialAssignment Function.assign
  rw [run_get]
  simp only [SpecialAttribute.field?, MetadataField.isHostOnly, host, MetadataField.fits,
    MetadataField.fault, Metadata.set?]
  cases hc : rt.heap.code? value with
  | none => cases value <;> rfl
  | some c =>
    obtain ⟨place, rfl⟩ := object (by rw [hc]; rfl)
    by_cases fits : c.freeVariables.length = (rt.heap.itemsAt m.closure).length
    · have ran := (run_modifyMetadata here hm fun m => { m with code := some place }).trans
        (run_store here (.function (f.withMetadata { m with code := some place }))).symm
      simpa [fits, Assignment.run, Value.asObject?] using ran
    · simp [fits, Assignment.run]

theorem run_setHostAttribute (here : rt.heap.get? r = some (.function f))
    (hm : f.metadata? = some m) (host : f.isHost = true) {special : SpecialAttribute}
    (hostOnly : ∀ field, special.field? = some field → field.isHostOnly = true) (name : String) :
    (setHostAttribute r m special name value).run rt =
      ((rt.specialAssignment r f m special name value).run name value).run rt := by
  have tuple : (rt.heap.tuple? value).isSome = true → ∃ place, value = .object place :=
    Heap.object_of_view Object.tuple?
  have dict : (rt.heap.dict? value).isSome = true → ∃ place, value = .object place :=
    Heap.object_of_view Object.dict?
  unfold setHostAttribute
  rw [run_get]
  cases special with
  | code => exact run_setCode here hm host name
  | defaults =>
    refine (run_assignOptional here hm tuple name "tuple object"
      fun defaults m => { m with defaults }).trans ?_
    unfold Runtime.specialAssignment Function.assign
    simp only [SpecialAttribute.field?, MetadataField.isHostOnly, host, MetadataField.fits,
      MetadataField.fault, Metadata.set?]
    cases value.isNone || (rt.heap.tuple? value).isSome <;> rfl
  | keywordDefaults =>
    refine (run_assignOptional here hm dict name "dict object"
      fun keywordDefaults m => { m with keywordDefaults }).trans ?_
    unfold Runtime.specialAssignment Function.assign
    simp only [SpecialAttribute.field?, MetadataField.isHostOnly, host, MetadataField.fits,
      MetadataField.fault, Metadata.set?]
    cases value.isNone || (rt.heap.dict? value).isSome <;> rfl
  | annotations =>
    refine (run_assignOptional here hm dict name "dict object"
      fun annotations m => { m with annotations }).trans ?_
    unfold Runtime.specialAssignment Function.assign
    simp only [SpecialAttribute.field?, MetadataField.isHostOnly, host, MetadataField.fits,
      MetadataField.fault, Metadata.set?]
    cases value.isNone || (rt.heap.dict? value).isSome <;> rfl
  | owner | receiver | wrapped | globals | closure => rfl
  | name | qualname | doc | module | attributes => cases hostOnly _ rfl

theorem run_setSpecialAttribute (here : rt.heap.get? r = some (.function f))
    (hm : f.metadata? = some m) (special : SpecialAttribute) (name : String) :
    (setSpecialAttribute r f m special name value).run rt =
      ((rt.specialAssignment r f m special name value).run name value).run rt := by
  have object : (rt.heap.dict? value).isSome = true → ∃ place, value = .object place :=
    Heap.object_of_view Object.dict?
  have host (hostOnly : ∀ field, special.field? = some field → field.isHostOnly = true) :
      (if f.isHost then setHostAttribute r m special name value
        else throw (.readOnlyAttribute name)).run rt =
        ((rt.specialAssignment r f m special name value).run name value).run rt := by
    cases isHost : f.isHost with
    | true => exact run_setHostAttribute here hm isHost hostOnly name
    | false =>
      unfold Runtime.specialAssignment Function.assign
      cases hf : special.field? with
      | none => rfl
      | some field =>
        simp only [hostOnly field hf, isHost]
        rfl
  unfold setSpecialAttribute
  rw [run_get]
  cases special with
  | name =>
    cases value with
    | text t => exact (run_modifyMetadata here hm _).trans (run_store here _).symm
    | none | bool | int | float | type | object => rfl
  | qualname =>
    cases value with
    | text t => exact (run_modifyMetadata here hm _).trans (run_store here _).symm
    | none | bool | int | float | type | object => rfl
  | doc | module => exact (run_modifyMetadata here hm _).trans (run_store here _).symm
  | attributes =>
    unfold Runtime.specialAssignment Function.assign
    simp only [SpecialAttribute.field?, MetadataField.isHostOnly, MetadataField.fits,
      MetadataField.fault, Metadata.set?]
    cases hd : rt.heap.dict? value with
    | none => cases value <;> rfl
    | some entries =>
      obtain ⟨place, rfl⟩ := object (by rw [hd]; rfl)
      exact (run_modifyMetadata here hm _).trans (run_store here _).symm
  | owner | receiver | wrapped | globals | closure =>
    exact host fun field hf => by cases hf
  | code | defaults | keywordDefaults | annotations =>
    exact host fun field hf => by cases hf; rfl

end Special

theorem run_setFunctionAttribute {r : Ref} {f : Function}
    (here : rt.heap.get? r = some (.function f)) (name : String) (value : Value) :
    (setFunctionAttribute r f name value).run rt =
      ((rt.functionAssignment r f name value).run name value).run rt := by
  unfold setFunctionAttribute Runtime.functionAssignment
  rw [run_get]
  dsimp only
  cases hm : f.metadata? with
  | none =>
    cases SpecialAttribute.named? name with
    | none => rfl
    | some special => cases special <;> rfl
  | some m =>
    cases SpecialAttribute.named? name with
    | none =>
      cases hd : m.attributes with
      | some dict =>
        simp only [hd, attributeDict]
        rfl
      | none =>
        simp only [hd, attributeDict]
        rfl
    | some special =>
      have ran : (setSpecialAttribute r f m special name value).run rt = _ :=
        run_setSpecialAttribute here hm special name
      cases special with
      | owner | receiver | wrapped | globals | closure => rfl
      | name | qualname | doc | module | attributes | code | defaults | keywordDefaults
      | annotations => exact ran

theorem run_setAttribute (v : Value) (name : String) (value : Value) :
    (setAttribute v name value).run rt =
      ((rt.assignment v name value).run name value).run rt := by
  unfold setAttribute Runtime.assignment
  rw [run_get]
  cases v with
  | object r =>
    cases hf : rt.baseFunction? (.object r) with
    | some f =>
      obtain ⟨_, ⟨⟩, here⟩ := Heap.get?_of_function? (Runtime.function?_of_baseFunction? hf)
      exact run_setFunctionAttribute here name value
    | none =>
      dsimp only
      cases rt.heap.get? r with
      | none => rfl
      | some o => cases o <;> rfl
  | type id =>
    dsimp only
    split <;> rfl
  | none | bool | int | float | text => rfl

end Activity
end Callables
