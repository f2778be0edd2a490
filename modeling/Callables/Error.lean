namespace Callables

inductive ErrorKind
  | typeError
  | attributeError
  | systemError
  | recursionError
  | raised
deriving DecidableEq, Inhabited

namespace ErrorKind

def name : ErrorKind → String
  | .typeError => "TypeError"
  | .attributeError => "AttributeError"
  | .systemError => "SystemError"
  | .recursionError => "RecursionError"
  | .raised => "Exception"

end ErrorKind

inductive BindingError
  | tooManyPositional (function : String) (expected given : Nat)
  | duplicateArgument (function parameter : String)
  | unexpectedKeyword (function keyword : String)
  | missingPositional (function parameter : String)
  | missingKeywordOnly (function parameter : String)
deriving DecidableEq, Inhabited

namespace BindingError

def message : BindingError → String
  | .tooManyPositional function expected given =>
    s!"{function}() takes {expected} positional arguments but {given} were given"
  | .duplicateArgument function parameter =>
    s!"{function}() got multiple values for argument '{parameter}'"
  | .unexpectedKeyword function keyword =>
    s!"{function}() got an unexpected keyword argument '{keyword}'"
  | .missingPositional function parameter =>
    s!"{function}() missing required positional argument: '{parameter}'"
  | .missingKeywordOnly function parameter =>
    s!"{function}() missing required keyword-only argument: '{parameter}'"

end BindingError

inductive TypeFault
  | globalsNotDict (type : String)
  | closureLength (code : String) (wanted given : Nat)
  | noCode (function : String)
  | attributeKind (attr wanted : String)
  | unacceptableBase (type : String)
  /-- No order of the ancestors respects the order of every base; the heads are all blocked. -/
  | inconsistentOrder (heads : List String)
  | baseFunctionOnHeapType (type : String)
  | immutableType (attr type : String)
  | notModule (type : String)
  | needsIntegers
  | other (message : String)
deriving DecidableEq, Inhabited

namespace TypeFault

def message : TypeFault → String
  | .globalsNotDict type => s!"globals must be a dict, not {type}"
  | .closureLength code wanted given =>
    s!"{code} requires closure of length {wanted}, not {given}"
  | .noCode function => s!"{function}() has no code object"
  | .attributeKind attr wanted => s!"{attr} must be set to a {wanted}"
  | .unacceptableBase type => s!"type '{type}' is not an acceptable base type"
  | .inconsistentOrder heads =>
    "Cannot create a consistent method resolution order (MRO) for bases " ++
      ", ".intercalate heads
  | .baseFunctionOnHeapType type => s!"cannot mark heap type '{type}' as a base function type"
  | .immutableType attr type =>
    s!"cannot set '{attr}' attribute of immutable type '{type}'"
  | .notModule type => s!"expected a module, not {type}"
  | .needsIntegers => "add needs integers"
  | .other message => message

end TypeFault

inductive CallError
  | missingSelf (name owner : String)
  | wrongSelfType (name owner actual : String)
  | takesNoArguments (name : String) (given : Nat)
  | takesOneArgument (name : String) (given : Nat)
  | noKeywordArguments (name : String)
  | notCallable (type : String)
  | binding (cause : BindingError)
  | typeFault (cause : TypeFault)
  | noAttribute (type attr : String)
  | readOnlyAttribute (attr : String)
  /-- The flags of the entry select no convention, or not the one it was written for. -/
  | badCallFlags (name : String) (flags : UInt32)
  | invalidEntry (name reason : String)
  | recursionLimit (name : String) (limit : UInt32)
  | raised (kind message : String)
deriving DecidableEq, Inhabited

namespace CallError

def kind : CallError → ErrorKind
  | .missingSelf .. | .wrongSelfType .. | .takesNoArguments .. | .takesOneArgument ..
  | .noKeywordArguments .. | .notCallable .. | .binding .. | .typeFault .. => .typeError
  | .noAttribute .. | .readOnlyAttribute .. => .attributeError
  | .badCallFlags .. | .invalidEntry .. => .systemError
  | .recursionLimit .. => .recursionError
  | .raised .. => .raised

def hexadecimal (word : UInt32) : String :=
  "0x" ++ String.ofList (Nat.toDigits 16 word.toNat)

def message : CallError → String
  | .missingSelf name owner => s!"descriptor '{name}' of '{owner}' object needs an argument"
  | .wrongSelfType name owner actual =>
    s!"descriptor '{name}' for '{owner}' objects doesn't apply to a '{actual}' object"
  | .takesNoArguments name given => s!"{name}() takes no arguments ({given} given)"
  | .takesOneArgument name given => s!"{name}() takes exactly one argument ({given} given)"
  | .noKeywordArguments name => s!"{name}() takes no keyword arguments"
  | .notCallable type => s!"'{type}' object is not callable"
  | .binding cause => cause.message
  | .typeFault cause => cause.message
  | .noAttribute type attr => s!"'{type}' object has no attribute '{attr}'"
  | .readOnlyAttribute attr => s!"readonly attribute '{attr}'"
  | .badCallFlags name flags => s!"{name}() method: bad call flags " ++ hexadecimal flags
  | .invalidEntry name reason => s!"method '{name}': {reason}"
  | .recursionLimit name limit =>
    s!"maximum recursion depth exceeded while calling '{name}' (limit {limit})"
  | .raised kind message => s!"{kind}: {message}"

def isTypeError (e : CallError) : Bool := e.kind = .typeError

end CallError
end Callables
