import Callables.Attribute

namespace Callables

structure Frame where
  function : Value
  /-- The code it had when it was called; the function may have other code by now. -/
  code : Code
  parameters : List Value
  positional : Option Value
  keywords : Option Value

namespace Frame

/-- The values that the frame holds while the body runs, in the order of letting go. -/
def held (frame : Frame) : List Value :=
  frame.function :: frame.parameters ++ frame.positional.toList ++ frame.keywords.toList

def argument? (frame : Frame) (index : Nat) : Option Value := frame.parameters[index]?

def parameter? (frame : Frame) (name : String) : Option Value :=
  (frame.code.parameters.slotOf? name).bind frame.argument?

def metadata? (frame : Frame) (rt : Runtime) : Option Metadata :=
  (rt.heap.function? frame.function).bind Function.metadata?

def globals? (frame : Frame) (rt : Runtime) : Option Value :=
  (frame.metadata? rt).map Metadata.globals

def global? (frame : Frame) (rt : Runtime) (name : String) : Option Value :=
  ((frame.globals? rt).bind rt.heap.dict?).bind (·.get? name)

def cell? (frame : Frame) (rt : Runtime) (index : Nat) : Option Value :=
  (frame.metadata? rt).bind fun metadata => (rt.heap.itemsAt metadata.closure)[index]?

end Frame

namespace Runtime

/-- The function that a method call may run with the receiver in front, without making a wrapper:
an unbound function found on the class that would bind to the receiver. Native entries that lead
with the callable need the wrapper. -/
def unboundMethod? (rt : Runtime) (receiver : Value) (name : String) : Option Value := do
  guard !((rt.ownAttributes? receiver).any (·.contains name))
  let attr ← rt.types.lookup (rt.typeOf receiver).id name
  guard (rt.bindsOnAccess attr)
  let f ← rt.baseFunction? attr
  let flags := f.entry.flags
  guard !f.isBound
  guard !(flags.has .static || flags.has .onClass)
  guard !(flags.has .passFunction && !flags.has .host)
  return attr

end Runtime

namespace Activity

def nameError (name : String) : Activity Value := throw (.raised "NameError" name)

def indexError (index : Nat) : Activity Value := throw (.raised "IndexError" (toString index))

def orElse (value : Option Value) (failure : Activity Value) : Activity Value :=
  match value with
  | some v => pure v
  | none => failure

/-- Calls a method by name. What the name stands for is held during the call. -/
def callMethodWith (call : Callee) (receiver : Value) (name : String) (args : List Value)
    (keywords : Keywords) : Activity Value := do
  match (← get).unboundMethod? receiver name with
  | some method => holding [method] (call method (receiver :: args) keywords)
  | none =>
    let attr ← getAttribute receiver name
    holding [attr] (call attr args keywords)

def add (a b : Value) : Activity Value :=
  match a.asInt?, b.asInt? with
  | some i, some j => pure (.int (i + j))
  | _, _ => throw (.typeFault .needsIntegers)

end Activity

open Activity in
mutual

/-- The value of an expression. Parts run from left to right, and the first error ends it. The
values of the parts are held until the expression has its own. -/
def evaluate (call : Callee) (frame : Frame) : Expr Text Value → Activity Value
  | .constant value => return value
  | .parameter name => orElse (frame.parameter? name) (nameError name)
  | .argument index => orElse (frame.argument? index) (indexError index)
  | .cell index => do orElse (frame.cell? (← get) index) (indexError index)
  | .global name => do orElse (frame.global? (← get) name) (nameError name)
  | .parameters => tuple frame.parameters
  | .collectedPositional => return frame.positional.getD .none
  | .collectedKeywords => return frame.keywords.getD .none
  | .globals => return (frame.globals? (← get)).getD .none
  | .function => return frame.function
  | .codeName => return .text frame.code.name
  | .depth => return .int (.ofNat (← get).thread.depth)
  | .tuple items => do
    let items ← evaluateAll call frame [] items
    releasing items (tuple items)
  | .sequence steps => evaluateSteps call frame .none steps
  | .call callee args keywords => do
    let callee ← evaluate call frame callee
    holding [callee] do
      let args ← evaluateAll call frame [] args
      releasing args do
        let keywords ← evaluateNamed call frame [] keywords
        releasing keywords.values (call callee args keywords)
  | .callMethod receiver name args keywords => do
    let receiver ← evaluate call frame receiver
    holding [receiver] do
      let args ← evaluateAll call frame [] args
      releasing args do
        let keywords ← evaluateNamed call frame [] keywords
        releasing keywords.values (callMethodWith call receiver name args keywords)
  | .getAttribute target name => do
    let target ← evaluate call frame target
    holding [target] (getAttribute target name)
  | .setAttribute target name value => do
    let target ← evaluate call frame target
    holding [target] do
      let value ← evaluate call frame value
      holding [value] do
        setAttribute target name value
        return .none
  | .raise kind message => throw (.raised kind message)
  | .attempt body => outcome (evaluate call frame body)
  | .add left right => do
    let left ← evaluate call frame left
    holding [left] do
      let right ← evaluate call frame right
      holding [right] (add left right)
  | .ifPositive condition yes no => do
    let condition ← evaluate call frame condition
    take [condition]
    letGo [condition]
    if condition.asInt?.any (0 < ·) then evaluate call frame yes else evaluate call frame no

def evaluateAll (call : Callee) (frame : Frame) (values : List Value) :
    List (Expr Text Value) → Activity (List Value)
  | [] => return values
  | e :: rest => do
    let value ← orLetGo values (evaluate call frame e)
    take [value]
    evaluateAll call frame (values ++ [value]) rest

def evaluateNamed (call : Callee) (frame : Frame) (keywords : Keywords) :
    List (Text × Expr Text Value) → Activity Keywords
  | [] => return keywords
  | (name, e) :: rest => do
    let value ← orLetGo keywords.values (evaluate call frame e)
    take [value]
    evaluateNamed call frame (keywords ++ [(name, value)]) rest

/-- The value of the last step, or the last value, which is held until there is a newer one. -/
def evaluateSteps (call : Callee) (frame : Frame) (last : Value) :
    List (Expr Text Value) → Activity Value
  | [] => releasing [last] (return last)
  | e :: rest => do
    let value ← orLetGo [last] (evaluate call frame e)
    take [value]
    letGo [last]
    evaluateSteps call frame value rest

end

end Callables
