namespace Callables

/-- A text object. Two texts are the same object when their `ident`s agree. -/
structure Text where
  ident : Nat
  content : String
deriving DecidableEq, Inhabited

structure TypeId where
  raw : UInt32
deriving DecidableEq, Inhabited

namespace TypeId

def object : TypeId := ⟨1⟩
def type : TypeId := ⟨2⟩
def none : TypeId := ⟨3⟩
def bool : TypeId := ⟨4⟩
def int : TypeId := ⟨5⟩
def float : TypeId := ⟨6⟩
def text : TypeId := ⟨7⟩
def tuple : TypeId := ⟨8⟩
def dict : TypeId := ⟨9⟩
def module : TypeId := ⟨10⟩
def code : TypeId := ⟨11⟩
def baseFunction : TypeId := ⟨16⟩
def builtinFunction : TypeId := ⟨17⟩
def definedFunction : TypeId := ⟨18⟩
def function : TypeId := ⟨19⟩
def nativeFunction : TypeId := ⟨20⟩
def method : TypeId := ⟨21⟩
def nativeClosure : TypeId := ⟨22⟩

def firstHeap : TypeId := ⟨256⟩

/-- Numbers below `firstHeap` are kept for the types that exist from the start. -/
def isBuiltin (id : TypeId) : Bool := id.raw < firstHeap.raw

def next (id : TypeId) : TypeId := ⟨id.raw + 1⟩

end TypeId

abbrev Ref := Nat

inductive Value
  | none
  | bool (b : Bool)
  | int (i : Int64)
  | float (x : Float)
  | text (t : Text)
  | type (id : TypeId)
  | object (ref : Ref)
deriving DecidableEq, Inhabited

abbrev Keywords := List (Text × Value)

namespace Keywords

def values (keywords : Keywords) : List Value := keywords.map Prod.snd

def byName (keywords : Keywords) : List (String × Value) :=
  keywords.map fun k => (k.1.content, k.2)

end Keywords

namespace Value

def equal : Value → Value → Bool
  | .none, .none => true
  | .bool a, .bool b => a == b
  | .int a, .int b => a == b
  | .float x, .float y => x == y
  | .int a, .float y => a.toFloat == y
  | .float x, .int b => b.toFloat == x
  | .text s, .text t => s.content == t.content
  | .type a, .type b => a == b
  | .object a, .object b => a == b
  | _, _ => false

def same : Value → Value → Bool
  | .text s, .text t => s.ident == t.ident
  | a, b => a.equal b

def asInt? : Value → Option Int64
  | .int i => some i
  | .bool b => some (if b then 1 else 0)
  | _ => Option.none

def asBool? : Value → Option Bool
  | .bool b => some b
  | _ => Option.none

def asFloat? : Value → Option Float
  | .float x => some x
  | _ => Option.none

def asText? : Value → Option Text
  | .text t => some t
  | _ => Option.none

def asType? : Value → Option TypeId
  | .type id => some id
  | _ => Option.none

def asObject? : Value → Option Ref
  | .object r => some r
  | _ => Option.none

def isNone : Value → Bool
  | .none => true
  | _ => false

def isObject : Value → Bool
  | .type _ | .object _ => true
  | _ => false

end Value
end Callables
