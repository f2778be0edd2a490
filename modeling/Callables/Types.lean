import Callables.Dict
import Callables.Error
import Callables.Flags
import Callables.Linearization
import Callables.Registry

namespace Callables

structure TypeInfo where
  id : TypeId
  name : String
  bases : List TypeId
  /-- All ancestors, nearest first, without the type itself. -/
  ancestors : List TypeId
  flags : TypeFlags
  attributes : Dict Value

abbrev Types := Registry TypeInfo

namespace TypeInfo

/-- The type itself, then its ancestors: the order of attribute search. -/
def linearization (t : TypeInfo) : List TypeId := t.id :: t.ancestors

def isSubtype (t : TypeInfo) (id : TypeId) : Bool := t.id == id || t.ancestors.contains id

def text (t : TypeInfo) : String := s!"<class '{t.name}'>"

/-- A type that exists from the start. It has at most one base, so its ancestors are the base and
the ancestors of the base. -/
def builtin (id : TypeId) (name : String) (base : Option TypeInfo) (flags : TypeFlags) :
    TypeInfo where
  id := id
  name := name
  bases := (base.map TypeInfo.id).toList
  ancestors := (base.map linearization).getD []
  flags := flags
  attributes := Dict.empty

def root : TypeInfo := builtin .object "object" none .baseType

end TypeInfo

namespace Types

/-- The types that exist from the start. Bound methods never bind again, so `method` alone among
the function types lacks the flag for it. -/
def builtins : List TypeInfo :=
  let object := TypeInfo.root
  let under (id : TypeId) (name : String) (flags : TypeFlags) : TypeInfo :=
    TypeInfo.builtin id name (some object) flags
  let callable := TypeFlags.baseFunction.join .methodDescriptor
  let int := under .int "int" .baseType
  let baseFunction := under .baseFunction "base_function" (callable.join .baseType)
  let defined := TypeInfo.builtin .definedFunction "defined_function" (some baseFunction) callable
  [object,
    under .type "type" .baseType,
    under .none "NoneType" .empty,
    int,
    TypeInfo.builtin .bool "bool" (some int) .empty,
    under .float "float" .baseType,
    under .text "str" .baseType,
    under .tuple "tuple" .baseType,
    under .dict "dict" .baseType,
    under .module "module" .baseType,
    under .code "code" .empty,
    baseFunction,
    TypeInfo.builtin .builtinFunction "builtin_function_or_method" (some baseFunction) callable,
    defined,
    TypeInfo.builtin .function "function" (some defined) callable,
    TypeInfo.builtin .nativeFunction "cfunction" (some defined) callable,
    TypeInfo.builtin .method "method" (some baseFunction) .baseFunction,
    under .nativeClosure "native_callable" .empty]

def initial : Types := ⟨builtins.map fun t => (t.id, t), .firstHeap⟩

/-- The type of a number; of an unknown number, the root. -/
def info (types : Types) (id : TypeId) : TypeInfo :=
  (types.get? id <|> types.get? .object).getD TypeInfo.root

def infoIn (types : Types) (registry : Registry TypeId) (id : TypeId) : TypeInfo :=
  ((registry.get? id <|> registry.get? .object).map types.info).getD TypeInfo.root

def builtinNamed? (name : String) : Option TypeId :=
  (builtins.find? (·.name == name)).map TypeInfo.id

def hasFlag (types : Types) (id : TypeId) (flag : TypeFlags) : Bool :=
  (types.info id).flags.has flag

def isSubtype (types : Types) (sub super : TypeId) : Bool := (types.info sub).isSubtype super

def lookup (types : Types) (id : TypeId) (name : String) : Option Value :=
  (types.info id).linearization.findSome? fun t => (types.info t).attributes.get? name

def linearize (types : Types) (bases : List TypeId) : Except (List String) (List TypeId) :=
  match Linearization.merge ((bases.map fun b => (types.info b).linearization) ++ [bases]) with
  | .ok order => .ok order
  | .error heads => .error (Linearization.withoutRuns (heads.map fun t => (types.info t).name))

/-- Creates and registers a type. Without bases it is a child of the root. -/
def create (types : Types) (name : String) (bases : List TypeId) :
    Except TypeFault (TypeId × Types) := do
  let bases := if bases.isEmpty then [.object] else bases
  match bases.find? fun b => !types.hasFlag b .baseType with
  | some base => throw (.unacceptableBase (types.info base).name)
  | none => pure ()
  let ancestors ←
    match types.linearize bases with
    | .ok order => pure order
    | .error heads => throw (.inconsistentOrder heads)
  let inherited := bases.foldl (fun flags b => flags.join ((types.info b).flags.meet .inherited))
    TypeFlags.empty
  let flags := (TypeFlags.heapType.join .baseType).join inherited
  let (id, types) := types.allocate
  let type : TypeInfo := { id, name, bases, ancestors, flags, attributes := Dict.empty }
  return (id, types.register id type)

/-- Adds flags to a type. The base function layout is refused to a type that is changeable. -/
def addFlags (types : Types) (id : TypeId) (flags : TypeFlags) : Except TypeFault Types :=
  if flags.has .baseFunction && types.hasFlag id .heapType then
    .error (.baseFunctionOnHeapType (types.info id).name)
  else
    .ok (types.modify id fun t => { t with flags := t.flags.join flags })

def modifyAttributes (types : Types) (id : TypeId) (f : Dict Value → Dict Value) : Types :=
  types.modify id fun t => { t with attributes := f t.attributes }

end Types
end Callables
