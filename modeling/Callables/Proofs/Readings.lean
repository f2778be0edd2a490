import Callables.Proofs.Assignments

namespace Callables

inductive Reading
  | failure (cause : CallError)
  | value (v : Value)
  | text (content : String)
  | wrapper (w : Function)
  | dict (r : Ref) (field : MetadataField)

def Reading.run : Reading → Activity Value
  | .failure cause => throw cause
  | .value v => return v
  | .text content => do return .text (← Activity.text content)
  | .wrapper w => Activity.allocate (.function w)
  | .dict r field => do return .object (← Activity.dictFor r none (Metadata.withDict field))

def Function.fieldReading (f : Function) (r : Ref) (m : Metadata) (field : MetadataField) :
    Reading :=
  match m.at? field, field with
  | some v, _ => .value v
  | none, .attributes | none, .annotations => .dict r field
  | none, .module => .value (f.module.getD .none)
  | none, _ => .value .none

namespace Runtime

def ownReading (rt : Runtime) (r : Ref) (m : Metadata) (name : String) : Reading :=
  match (rt.heap.entriesAt m.attributes).get? name with
  | some v => .value v
  | none => .failure (rt.noAttribute (.object r) name)

def ownerReading (rt : Runtime) (v : Value) (f : Function) (name : String) : Reading :=
  match f.owner with
  | some owner => .value (.type owner)
  | none => .failure (rt.noAttribute v name)

/-- An attribute of a function with metadata. What only host-language functions answer is an
attribute like any other for native ones. -/
def metadataReading (rt : Runtime) (r : Ref) (f : Function) (m : Metadata) (name : String) :
    Reading :=
  match SpecialAttribute.named? name with
  | none => rt.ownReading r m name
  | some special =>
    match special.field? with
    | some field =>
      if field.isHostOnly && !f.isHost then rt.ownReading r m name else f.fieldReading r m field
    | none =>
      match special, f.isHost with
      | .owner, _ => rt.ownerReading (.object r) f name
      | .receiver, false => .value (f.receiver.getD .none)
      | .globals, true => .value m.globals
      | .closure, true => .value (Metadata.valueOf m.closure)
      | _, _ => rt.ownReading r m name

def bareReading (rt : Runtime) (r : Ref) (f : Function) (name : String) : Reading :=
  match SpecialAttribute.named? name with
  | some .name => .text f.entry.name
  | some .qualname => .text (rt.ownQualname f)
  | some .owner => rt.ownerReading (.object r) f name
  | some .doc =>
    match f.entry.doc with
    | some doc => .text doc
    | none => .value .none
  | some .module => .value (f.module.getD .none)
  | some .receiver => .value (f.receiver.getD .none)
  | _ => .failure (rt.noAttribute (.object r) name)

def functionReading (rt : Runtime) (r : Ref) (f : Function) (name : String) : Reading :=
  match f.metadata? with
  | some m => rt.metadataReading r f m name
  | none => rt.bareReading r f name

def bindingReading (rt : Runtime) (callable : Value) (accessor : Option Value)
    (accessingClass : Option TypeId) : Reading :=
  match rt.bindingReceiver? callable accessor accessingClass with
  | some receiver =>
    match rt.wrapper callable receiver with
    | .ok w => .wrapper w
    | .error cause => .failure cause
  | none => .value callable

def classReading (rt : Runtime) (v : Value) (name : String) : Reading :=
  match rt.types.lookup (rt.accessOf v).2 name with
  | none => .failure (rt.noAttribute v name)
  | some attr =>
    if rt.bindsOnAccess attr then
      rt.bindingReading attr (rt.accessOf v).1 (some (rt.accessOf v).2)
    else .value attr

def objectReading (rt : Runtime) (v : Value) (name : String) : Reading :=
  match rt.moduleNames? v with
  | some names =>
    match (rt.heap.entriesAt (some names)).get? name with
    | some value => .value value
    | none => .failure (rt.noAttribute v name)
  | none =>
    match (rt.ownAttributes? v).bind (·.get? name) with
    | some value => .value value
    | none => rt.classReading v name

def directReading (rt : Runtime) (v : Value) (name : String) : Reading :=
  match v, rt.baseFunction? v with
  | .object r, some f => rt.functionReading r f name
  | _, _ => rt.objectReading v name

def reading (rt : Runtime) (v : Value) (name : String) : Reading :=
  match rt.baseFunction? v with
  | none => rt.directReading v name
  | some f =>
    match f.wrapped? with
    | none => rt.directReading v name
    | some wrapped =>
      match SpecialAttribute.named? name with
      | some .receiver => .value (f.receiver.getD .none)
      | some .wrapped => .value wrapped
      | some .owner => rt.ownerReading v f name
      | _ => rt.directReading (rt.heap.innermost v) name

end Runtime

namespace Activity

variable {rt : Runtime}

theorem run_getOwnAttribute (r : Ref) (m : Metadata) (name : String) :
    (getOwnAttribute r m name).run rt = (rt.ownReading r m name).run.run rt := by
  unfold getOwnAttribute Runtime.ownReading
  rw [run_get]
  cases (rt.heap.entriesAt m.attributes).get? name <;> rfl

theorem run_getOwner (v : Value) (f : Function) (name : String) :
    (getOwner v f name).run rt = (rt.ownerReading v f name).run.run rt := by
  unfold getOwner Runtime.ownerReading
  rw [run_get]
  cases f.owner <;> rfl

section Fields

variable {f : Function} {r : Ref} {m : Metadata} {field : MetadataField} {o : Option Ref}

theorem fieldReading_of_some {v : Value} (held : m.at? field = some v) :
    f.fieldReading r m field = .value v := by
  simp [Function.fieldReading, held]

/-- An optional field answers what it holds, or else nothing. -/
theorem run_valueOf (held : m.at? field = o.map .object)
    (empty : m.at? field = none → f.fieldReading r m field = .value .none) :
    (pure (Metadata.valueOf o) : Activity Value).run rt =
      (f.fieldReading r m field).run.run rt := by
  cases o with
  | none =>
    rw [empty held]
    rfl
  | some place =>
    rw [fieldReading_of_some held]
    rfl

/-- A field for a dict answers what it holds, or else a new dict. -/
theorem run_dictOf (f : Function) (r : Ref) (m : Metadata) (field : MetadataField)
    (held : m.at? field = o.map .object)
    (empty : m.at? field = none → f.fieldReading r m field = .dict r field) :
    (dictFor r o (Metadata.withDict field) >>= fun dict => pure (.object dict)).run rt =
      (f.fieldReading r m field).run.run rt := by
  cases o with
  | none =>
    rw [empty held]
    rfl
  | some place =>
    rw [fieldReading_of_some held]
    rfl

end Fields

theorem run_getFunctionAttribute (r : Ref) (f : Function) (name : String) :
    (getFunctionAttribute r f name).run rt = (rt.functionReading r f name).run.run rt := by
  unfold getFunctionAttribute Runtime.functionReading
  rw [run_get]
  cases f.metadata? with
  | none =>
    unfold Runtime.bareReading
    cases SpecialAttribute.named? name with
    | none => rfl
    | some special =>
      cases special with
      | owner => exact run_getOwner _ _ _
      | doc => cases f.entry.doc <;> rfl
      | _ => rfl
  | some m =>
    unfold Runtime.metadataReading
    cases SpecialAttribute.named? name with
    | none => exact run_getOwnAttribute _ _ _
    | some special =>
      cases special with
      | name | qualname | doc => rfl
      | module =>
        change (pure ((m.module <|> f.module).getD .none) : Activity Value).run rt =
          (f.fieldReading r m .module).run.run rt
        unfold Function.fieldReading Metadata.at?
        cases m.module <;> rfl
      | attributes =>
        change (attributeDict r m >>= fun dict => pure (.object dict)).run rt =
          (f.fieldReading r m .attributes).run.run rt
        exact run_dictOf f r m .attributes rfl fun none => by
          simp only [Function.fieldReading, none]
      | owner => exact run_getOwner _ _ _
      | wrapped => exact run_getOwnAttribute _ _ _
      | receiver =>
        cases f.isHost with
        | true => exact run_getOwnAttribute _ _ _
        | false => rfl
      -- what only host-language functions have is an attribute of their own for native ones
      | globals | closure =>
        cases f.isHost with
        | true => rfl
        | false => exact run_getOwnAttribute _ _ _
      | code | defaults | keywordDefaults =>
        cases f.isHost with
        | true => exact run_valueOf rfl fun none => by simp only [Function.fieldReading, none]
        | false => exact run_getOwnAttribute _ _ _
      | annotations =>
        cases f.isHost with
        | true =>
          change (annotationDict r m >>= fun dict => pure (.object dict)).run rt =
            (f.fieldReading r m .annotations).run.run rt
          exact run_dictOf f r m .annotations rfl fun none => by
            simp only [Function.fieldReading, none]
        | false => exact run_getOwnAttribute _ _ _

theorem run_bindOnAccess (callable : Value) (accessor : Option Value)
    (accessingClass : Option TypeId) :
    (bindOnAccess callable accessor accessingClass).run rt =
      (rt.bindingReading callable accessor accessingClass).run.run rt := by
  unfold bindOnAccess Runtime.bindingReading
  rw [run_get]
  cases rt.bindingReceiver? callable accessor accessingClass with
  | none => rfl
  | some receiver =>
    dsimp only
    unfold bindMethod
    rw [run_get]
    cases rt.wrapper callable receiver <;> rfl

theorem run_getClassAttribute (v : Value) (name : String) :
    (getClassAttribute v name).run rt = (rt.classReading v name).run.run rt := by
  unfold getClassAttribute Runtime.classReading
  rw [run_get]
  dsimp only
  cases rt.types.lookup (rt.accessOf v).2 name with
  | none => rfl
  | some attr =>
    dsimp only
    split
    · exact run_bindOnAccess _ _ _
    · rfl

theorem run_getObjectAttribute (v : Value) (name : String) :
    (getObjectAttribute v name).run rt = (rt.objectReading v name).run.run rt := by
  unfold getObjectAttribute Runtime.objectReading
  rw [run_get]
  cases rt.moduleNames? v with
  | some names =>
    dsimp only
    cases (rt.heap.entriesAt (some names)).get? name <;> rfl
  | none =>
    dsimp only
    cases (rt.ownAttributes? v).bind (·.get? name) with
    | some value => rfl
    | none => exact run_getClassAttribute v name

theorem run_getDirectAttribute (v : Value) (name : String) :
    (getDirectAttribute v name).run rt = (rt.directReading v name).run.run rt := by
  unfold getDirectAttribute Runtime.directReading
  rw [run_get]
  cases v with
  | object r =>
    cases rt.baseFunction? (.object r) with
    | none => exact run_getObjectAttribute _ _
    | some f => exact run_getFunctionAttribute _ _ _
  | none | bool | int | float | text | type => exact run_getObjectAttribute _ _

theorem run_getAttribute (v : Value) (name : String) :
    (getAttribute v name).run rt = (rt.reading v name).run.run rt := by
  unfold getAttribute Runtime.reading
  rw [run_get]
  cases rt.baseFunction? v with
  | none => exact run_getDirectAttribute _ _
  | some f =>
    dsimp only
    cases f.wrapped? with
    | none => exact run_getDirectAttribute _ _
    | some wrapped =>
      dsimp only
      cases SpecialAttribute.named? name with
      | none => exact run_getDirectAttribute _ _
      | some special =>
        cases special with
        | receiver | wrapped => rfl
        | owner => exact run_getOwner _ _ _
        | _ => exact run_getDirectAttribute _ _

end Activity

namespace Runtime

variable {rt : Runtime}

theorem wrapped?_of_metadata? {f : Function} {m : Metadata} (hm : f.metadata? = some m) :
    f.wrapped? = none := by
  unfold Function.metadata? at hm
  unfold Function.wrapped?
  cases hk : f.kind <;> simp_all [FunctionKind.metadata?, FunctionKind.wrapped?]

theorem directReading_of_metadata? {r : Ref} {f : Function} {m : Metadata}
    (hf : rt.baseFunction? (.object r) = some f) (hm : f.metadata? = some m) (name : String) :
    rt.directReading (.object r) name = rt.metadataReading r f m name := by
  simp only [directReading, hf, functionReading, hm]

theorem reading_of_metadata? {r : Ref} {f : Function} {m : Metadata}
    (hf : rt.baseFunction? (.object r) = some f) (hm : f.metadata? = some m) (name : String) :
    rt.reading (.object r) name = rt.metadataReading r f m name := by
  simp only [reading, hf, wrapped?_of_metadata? hm, directReading_of_metadata? hf hm]

end Runtime
end Callables
