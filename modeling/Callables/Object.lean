import Callables.Code
import Callables.Dict
import Callables.Entry

namespace Callables

/-- What a program can ask and change about a function. The fields are not checked against each
other: new code leaves the defaults alone, and so on. -/
structure Metadata where
  name : Text
  qualname : Text
  doc : Value
  module : Option Value
  code : Option Ref
  defaults : Option Ref
  keywordDefaults : Option Ref
  annotations : Option Ref
  attributes : Option Ref
  globals : Value
  closure : Option Ref

inductive FunctionKind
  | builtin
  | defined (metadata : Metadata)
  | native (metadata : Metadata)
  | method (wrapped : Value)

namespace FunctionKind

def typeId : FunctionKind → TypeId
  | .builtin => .builtinFunction
  | .defined _ => .function
  | .native _ => .nativeFunction
  | .method _ => .method

def metadata? : FunctionKind → Option Metadata
  | .defined metadata | .native metadata => some metadata
  | _ => none

def wrapped? : FunctionKind → Option Value
  | .method wrapped => some wrapped
  | _ => none

def withMetadata (metadata : Metadata) : FunctionKind → FunctionKind
  | .defined _ => .defined metadata
  | .native _ => .native metadata
  | kind => kind

end FunctionKind

structure Function where
  entry : Entry
  receiver : Option Value
  module : Option Value
  /-- The owner class: receivers have to conform to it. -/
  owner : Option TypeId
  /-- The marks left when the callable is released, in the order of registration. -/
  watchers : List Int
  kind : FunctionKind

namespace Function

def isBound (f : Function) : Bool := f.receiver.isSome

def metadata? (f : Function) : Option Metadata := f.kind.metadata?

def wrapped? (f : Function) : Option Value := f.kind.wrapped?

def isMethod (f : Function) : Bool := f.wrapped?.isSome

def isHost (f : Function) : Bool :=
  match f.kind with
  | .defined _ => true
  | _ => false

def isNative (f : Function) : Bool :=
  match f.kind with
  | .native _ => true
  | _ => false

/-- Whether the callable is native and nothing of it is host-language code. -/
def isBuiltin (f : Function) : Bool :=
  match f.kind with
  | .builtin | .native _ => !f.entry.flags.has .host
  | _ => false

def ownsEntry (f : Function) : Bool := f.isNative && f.entry.shared

end Function

inductive ClosureBody
  | collect
  | fail
  | apply
  | depth
deriving DecidableEq, Inhabited

/-- A callable outside the common record: it is called directly and not dispatched. -/
structure Closure where
  name : String
  body : ClosureBody
deriving DecidableEq, Inhabited

/-- An object on the heap. Types are not on it: they live for ever in the registry. -/
inductive Object
  | tuple (items : List Value)
  | dict (entries : Dict Value)
  | module (name : Text) (names : Ref)
  | code (code : Code)
  | ofClass (type : TypeId) (attributes : Dict Value)
  | closure (closure : Closure)
  | function (function : Function)

namespace Object

def typeId : Object → TypeId
  | .tuple _ => .tuple
  | .dict _ => .dict
  | .module .. => .module
  | .code _ => .code
  | .ofClass type _ => type
  | .closure _ => .nativeClosure
  | .function f => f.kind.typeId

def tuple? : Object → Option (List Value)
  | .tuple items => some items
  | _ => none

def dict? : Object → Option (Dict Value)
  | .dict entries => some entries
  | _ => none

def code? : Object → Option Code
  | .code c => some c
  | _ => none

def function? : Object → Option Function
  | .function f => some f
  | _ => none

theorem tuple?_eq_some {o : Object} {items : List Value} :
    o.tuple? = some items ↔ o = .tuple items := by
  cases o <;> simp [tuple?]

theorem dict?_eq_some {o : Object} {entries : Dict Value} :
    o.dict? = some entries ↔ o = .dict entries := by
  cases o <;> simp [dict?]

theorem code?_eq_some {o : Object} {c : Code} : o.code? = some c ↔ o = .code c := by
  cases o <;> simp [code?]

theorem function?_eq_some {o : Object} {f : Function} : o.function? = some f ↔ o = .function f := by
  cases o <;> simp [function?]

end Object
end Callables
