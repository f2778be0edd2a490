import Callables.Session

namespace Callables

/-- The fields of metadata that can be set without the checks of attribute assignment. -/
inductive MetadataField
  | name
  | qualname
  | doc
  | module
  | code
  | defaults
  | keywordDefaults
  | annotations
  | attributes
deriving DecidableEq, Inhabited

structure CodePlan where
  name : String
  qualname : Option String
  doc : Option String
  parameters : Parameters
  freeVariables : List String
  body : Expr String Operand

structure EntryPlan where
  name : String
  convention : Convention
  native : Native convention
  flags : EntryFlags
  doc : Option String
  shared : Bool

inductive Operation
  | make (operand : Operand)
  | drop (name : String)
  | newType (name : String) (bases : List Operand)
  | addTypeFlags (type : Operand) (flags : TypeFlags)
  | typeAttribute (type : Operand) (name : String)
  | inheritedAttribute (type : Operand) (name : String)
  | setTypeAttribute (type : Operand) (name : String) (value : Operand)
  | eraseTypeAttribute (type : Operand) (name : String)
  | newInstance (type : Operand)
  | newModule (name : String)
  | moduleNames (module : Operand)
  | item (tuple : Operand) (index : Int)
  | concat (left right : Operand)
  | entryOf (dict : Operand) (key : String)
  | setEntry (dict : Operand) (key : String) (value : Operand)
  | eraseEntry (dict : Operand) (key : String)
  | copyDict (dict : Operand)
  | newCode (plan : CodePlan)
  | newHostFunction (code globals : Operand) (qualname : Option String)
      (closure : Option Operand)
  | define (label : String) (plan : EntryPlan)
  | newBuiltinFunction (entry : String) (receiver module : Option Operand)
  | newNativeFunction (entry : String) (receiver module owner : Option Operand)
  | newClosure (name : String) (body : ClosureBody)
  | addTableToType (type : Operand) (entries : List String)
  | addTableToModule (module : Operand) (entries : List String)
  | bindMethod (callable receiver : Operand)
  | bindOnAccess (callable : Operand) (accessor accessingClass : Option Operand)
  | setMetadata (function : Operand) (field : MetadataField) (value : Operand)
  | watch (function : Operand) (mark : Int)
  | getAttribute (target : Operand) (name : String)
  | setAttribute (target : Operand) (name : String) (value : Operand)
  | call (callee : Operand) (args : List Operand) (keywords : List (String × Operand))
  | callMethod (receiver : Operand) (name : String) (args : List Operand)
      (keywords : List (String × Operand))
  | callDirectly (callee : Operand) (args : List Operand) (keywords : List (String × Operand))
  | profile (events : Option Nat)
  | stopProfile
  | takeLog
  | resetCounts
  | setLimit (limit : UInt32)
  | enter (name : String)
  | leave
  | newRegistry (label : String)
  | allocateId (registry : String)
  | register (registry : String) (type : Operand)

inductive Outcome
  | done
  | value (v : Value)
  | optional (v : Option Value)
  | count (n : Nat)
  | flags (flags : TypeFlags)
  | events (events : List Event)
  | typeId (id : TypeId)
deriving DecidableEq

namespace Outcome

def value? : Outcome → Option Value
  | .value v => some v
  | .optional v => v
  | _ => none

end Outcome

namespace Tuple

/-- The item at an index; a negative index counts from the end. -/
def item? (items : List Value) (index : Int) : Option Value :=
  let place := if index < 0 then index + items.length else index
  if place < 0 then none else items[place.toNat]?

theorem mem_of_item? {items : List Value} {index : Int} {v : Value}
    (h : item? items index = some v) : v ∈ items := by
  simp only [item?] at h
  generalize (if index < 0 then index + (items.length : Int) else index) = place at h
  split at h
  · simp at h
  · exact List.mem_of_getElem? h

end Tuple

namespace Metadata

/-- The metadata with one field set, or none if the value is of the wrong sort. A value that is no
tuple or dict clears the defaults and the annotations. -/
def set? (m : Metadata) (heap : Heap) (field : MetadataField) (value : Value) :
    Option Metadata :=
  let tuple := if (heap.tuple? value).isSome then value.asObject? else none
  let dict := if (heap.dict? value).isSome then value.asObject? else none
  let code := if (heap.code? value).isSome then value.asObject? else none
  match field with
  | .name => value.asText?.map fun name => { m with name }
  | .qualname => value.asText?.map fun qualname => { m with qualname }
  | .doc => some { m with doc := value }
  | .module => some { m with module := some value }
  | .code => code.map fun code => { m with code := some code }
  | .defaults => some { m with defaults := tuple }
  | .keywordDefaults => some { m with keywordDefaults := dict }
  | .annotations => some { m with annotations := dict }
  | .attributes => dict.map fun dict => { m with attributes := some dict }

end Metadata

namespace Operation

open Program

def value (activity : Activity Value) : Program Outcome := return .value (← act activity)

def done (activity : Activity Unit) : Program Outcome := do
  act activity
  return .done

def setTypes (types : Types) : Program Unit :=
  modify fun s => { s with runtime := { s.runtime with types } }

def ofTypes {α : Type} : Except TypeFault α → Program α
  | .ok a => pure a
  | .error cause => throw (.failed (.typeFault cause))

def makeCode (plan : CodePlan) : Program Value := do
  let body ← plan.body.mapM (fun name => act (Activity.text name)) read
  let name ← act (Activity.text plan.name)
  let qualname ← act (Activity.text (plan.qualname.getD plan.name))
  let doc ← plan.doc.mapM fun doc => act (Activity.text doc)
  act (Activity.allocate (.code {
    name, qualname, doc, body
    parameters := plan.parameters
    freeVariables := plan.freeVariables }))

def run : Operation → Program Outcome
  | .make operand => return .value (← read operand)
  | .drop name => do
    discard <| need ((← get).kept.get? name)
    modify (·.forget name)
    return .done
  | .newType name bases => do
    let bases ← bases.mapM readType
    let (id, types) ← ofTypes ((← runtime).types.create name bases)
    setTypes types
    return .value (.type id)
  | .addTypeFlags type flags => do
    let type ← readType type
    let types ← ofTypes ((← runtime).types.addFlags type flags)
    setTypes types
    return .flags (types.info type).flags
  | .typeAttribute type name => do
    let type ← readType type
    return .optional (((← runtime).types.info type).attributes.get? name)
  | .inheritedAttribute type name => do
    let type ← readType type
    return .optional ((← runtime).types.lookup type name)
  | .setTypeAttribute type name value => do
    let type ← readType type
    let value ← read value
    done (Activity.setTypeAttribute type name value)
  | .eraseTypeAttribute type name => do
    let type ← readType type
    return .optional (← act (Activity.eraseTypeAttribute type name))
  | .newInstance type => do
    let type ← readType type
    value (Activity.newInstance type)
  | .newModule name => value (Activity.newModule name)
  | .moduleNames module => do
    let module ← read module
    return .value (.object (← need ((← runtime).moduleNames? module)))
  | .item tuple index => do
    let (_, items) ← readTuple tuple
    return .optional (Tuple.item? items index)
  | .concat left right => do
    let (_, left) ← readTuple left
    let (_, right) ← readTuple right
    value (Activity.tuple (left ++ right))
  | .entryOf dict key => do
    let (_, entries) ← readDict dict
    return .optional (entries.get? key)
  | .setEntry dict key value => do
    let (dict, _) ← readDict dict
    let value ← read value
    done (Activity.setInDict dict key value)
  | .eraseEntry dict key => do
    let (dict, _) ← readDict dict
    return .optional (← act (Activity.eraseInDict dict key))
  | .copyDict dict => do
    let (_, entries) ← readDict dict
    value (Activity.allocate (.dict entries))
  | .newCode plan => return .value (← makeCode plan)
  | .newHostFunction code globals qualname closure => do
    let (code, c) ← readCode code
    let globals ← read globals
    let closure ← closure.mapM readTuple
    value (Activity.newHostFunction code c globals qualname (closure.map Prod.fst))
  | .define label plan => do
    let ident ← act Activity.entryIdent
    let entry : Entry := { plan with ident }
    modify fun s => { s with entries := s.entries.set label entry }
    return .done
  | .newBuiltinFunction label receiver module => do
    let entry ← entry label
    if entry.shared then malformed
    let receiver ← readOptional receiver
    let module ← readOptional module
    value (Activity.newBuiltinFunction entry receiver module)
  | .newNativeFunction label receiver module owner => do
    let entry ← entry label
    let receiver ← readOptional receiver
    let module ← readOptional module
    let owner ← readOptionalType owner
    value (Activity.newNativeMethod entry receiver module owner)
  | .newClosure name body => value (Activity.newClosure name body)
  | .addTableToType type labels => do
    let type ← readType type
    let entries ← labels.mapM entry
    let table ← act (Activity.newTable entries)
    return .count (← act (Activity.addTableToType type table))
  | .addTableToModule module labels => do
    let module ← read module
    let entries ← labels.mapM entry
    let table ← act (Activity.newTable entries)
    return .count (← act (Activity.addTableToModule module table))
  | .bindMethod callable receiver => do
    let callable ← read callable
    let receiver ← read receiver
    value (Activity.bindMethod callable receiver)
  | .bindOnAccess callable accessor accessingClass => do
    let callable ← read callable
    let accessor ← readOptional accessor
    let accessingClass ← readOptionalType accessingClass
    value (Activity.bindOnAccess callable accessor accessingClass)
  | .setMetadata function field value => do
    let (r, f) ← readFunction function
    let value ← read value
    let metadata ← need f.metadata?
    let metadata ← need (metadata.set? (← runtime).heap field value)
    done (Activity.modifyMetadata r fun _ => metadata)
  | .watch function mark => do
    let (r, f) ← readFunction function
    let watchers := f.watchers ++ [mark]
    act (Activity.store r (.function { f with watchers }))
    return .count watchers.length
  | .getAttribute target name => do
    let target ← read target
    value (Activity.getAttribute target name)
  | .setAttribute target name value => do
    let target ← read target
    let value ← read value
    done (Activity.setAttribute target name value)
  | .call callee args keywords => do
    let callee ← read callee
    let args ← readAll args
    let keywords ← readKeywords keywords
    value (Activity.holding (keywords.values ++ args ++ [callee])
      (Activity.call callee args keywords))
  | .callMethod receiver name args keywords => do
    let receiver ← read receiver
    let args ← readAll args
    let keywords ← readKeywords keywords
    value (Activity.holding (keywords.values ++ args ++ [receiver])
      (Activity.callMethod receiver name args keywords))
  | .callDirectly callee args keywords => do
    let callee ← read callee
    let args ← readAll args
    let keywords ← readKeywords keywords
    value (Activity.holding (keywords.values ++ args ++ [callee])
      (Activity.callDirectly callee args keywords))
  | .profile events =>
    done (Activity.modifyThread fun t => { t with profiler := some ⟨events⟩ })
  | .stopProfile => done (Activity.modifyThread fun t => { t with profiler := none })
  | .takeLog => do
    let events := (← runtime).thread.log.toList
    act (Activity.modifyThread fun t => { t with log := #[] })
    return .events events
  | .resetCounts => done (Activity.modifyThread fun t => { t with counts := .zero })
  | .setLimit limit => done (Activity.modifyThread (·.withLimit limit))
  | .enter name => do
    let t := (← runtime).thread
    if t.hasRoom then
      act (Activity.modifyThread Thread.enter)
      modify fun s => { s with openLevels := s.openLevels + 1 }
      return .count (t.depth + 1)
    else throw (.failed (.recursionLimit name t.limit))
  | .leave => do
    if (← get).openLevels = 0 then malformed
    act (Activity.modifyThread Thread.leave)
    modify fun s => { s with openLevels := s.openLevels - 1 }
    return .count (← runtime).thread.depth
  | .newRegistry label => do
    setRegistry label .empty
    return .done
  | .allocateId label => do
    let (id, registry) := (← registry label).allocate
    setRegistry label registry
    return .typeId id
  | .register label type => do
    let registry ← registry label
    let type ← readType type
    let registry := registry.register type type
    setRegistry label registry
    return .count registry.size

end Operation

namespace Session

def step (s : Session) (operation : Operation) (label : Option String) :
    Except Stop Outcome × Session :=
  operation.run.perform label Outcome.value? s

end Session
end Callables
