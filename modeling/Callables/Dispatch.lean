import Callables.Binding
import Callables.Evaluate

namespace Callables

namespace Runtime

/-- An unbound function with an owner class needs a first argument that conforms to it. -/
def checkReceiver (rt : Runtime) (f : Function) (args : List Value) : Except CallError Unit :=
  match f.owner, f.receiver with
  | some owner, none =>
    match args with
    | [] => .error (.missingSelf f.entry.name (rt.types.info owner).name)
    | first :: _ => rt.checkSelf f.entry owner first
  | _, _ => .ok ()

def leadingArgument (callable : Value) (f : Function) (args : List Value) : Value × List Value :=
  if f.entry.flags.has .passFunction then (callable, args)
  else
    match f.receiver, args with
    | some receiver, _ => (receiver, args)
    | none, first :: rest =>
      if f.owner.isSome && !f.entry.flags.has .keepSelf then (first, rest) else (.none, args)
    | none, [] => (.none, [])

def deliver (rt : Runtime) (callable : Value) (f : Function) (args : List Value)
    (keywords : Keywords) : Except CallError (Delivery f.entry.convention) := do
  rt.checkReceiver f args
  let (lead, args) := leadingArgument callable f args
  f.entry.accept lead args keywords

end Runtime

structure HostCall where
  function : Value
  name : String
  code : Code
  bound : Bound Value
  /-- The objects whose contents the call goes by. -/
  snapshot : List Value

/-- Binds the arguments of a host-language function to its parameters. The function is the leading
argument itself or what it wraps. -/
def Runtime.hostCall (rt : Runtime) (lead : Value) (view : ArgsView) :
    Except CallError HostCall :=
  let wrapper := (rt.heap.function? lead).filter Function.isMethod
  let function := (wrapper.bind Function.wrapped?).getD lead
  let receiver := wrapper.bind Function.receiver
  match (rt.heap.function? function).bind Function.metadata? with
  | none => .error (.invalidEntry Entry.hostFunction.name "called without a function object")
  | some metadata =>
    let name := metadata.qualname.content
    match metadata.code.bind fun r => rt.heap.code? (.object r) with
    | none => .error (.typeFault (.noCode name))
    | some code =>
      let defaults : Defaults Value := {
        positional := rt.heap.itemsAt metadata.defaults
        keywordOnly := rt.heap.entriesAt metadata.keywordDefaults }
      match code.parameters.bind name defaults (receiver.toList ++ view.positional)
          view.keywords.byName with
      | .error e => .error (.binding e)
      | .ok bound =>
        let snapshot := [metadata.code, metadata.keywordDefaults, metadata.defaults]
        .ok { function, name, code, bound, snapshot := snapshot.filterMap (·.map Value.object) }

namespace Activity

def boom : Activity Value := throw (.raised "ValueError" "boom")

def depth : Activity Value := do return .int (.ofNat (← get).thread.depth)

def applyFirst (call : Callee) (args : List Value) (keywords : Keywords) : Activity Value :=
  match args with
  | [] => indexError 0
  | callee :: rest => call callee rest keywords

/-- Runs a body between its start and end events. The end is reported even if the body fails. -/
def reported (start : EventKind) (stop : Bool → EventKind) (name : String)
    (body : Activity Value) : Activity Value := do
  emit start name
  let result ← observe body
  emit (stop result.isOk) name
  ofExcept result

/-- Runs the code of a host-language function on a new frame. Names, code and defaults are those at
the start of the call, whatever the body changes; like the frame, code and defaults are held while
the body runs. -/
def runHost (call : Callee) (lead : Value) (view : ArgsView) : Activity Value := do
  match (← get).hostCall lead view with
  | .error e => throw e
  | .ok host =>
    let positional ← host.bound.positional.mapM tuple
    let keywords ← host.bound.keywords.mapM fun entries => allocate (.dict entries)
    let frame : Frame := {
      function := host.function, code := host.code
      parameters := host.bound.parameters, positional, keywords }
    holding (frame.held ++ host.snapshot)
      (reported .call (fun _ => .ret) host.name (evaluate call frame host.code.body))

def runBound (call : Callee) (lead : Value) (view : ArgsView) : Activity Value := do
  let wrapper := (← get).heap.function? lead
  match wrapper.bind Function.wrapped?, wrapper.bind Function.receiver with
  | some wrapped, some receiver => call wrapped (receiver :: view.positional) view.keywords
  | _, _ => throw (.invalidEntry Entry.boundMethod.name "called without a bound method")

def runNative (call : Callee) {c : Convention} : Native c → Delivery c → Activity Value
  | .lead, .noArgs lead => return lead
  | .fail, _ => boom
  | .depth, _ => depth
  | .pair, .single lead arg => tuple [lead, arg]
  | .callArgument, .single _ arg => call arg [] []
  | .pack, .varArgs lead args => do tuple [lead, ← tuple args]
  | .packKeywords, .varArgsKeywords lead args keywords => do
    let args ← tuple args
    let keywords ← keywords.mapM fun entries => allocate (.dict entries)
    tuple [lead, args, keywords.getD .none]
  | .record, .fast lead args => tuple (lead :: args)
  | .count, .fast _ args => return .int (.ofNat args.length)
  | .refuse, _ => boom
  | .apply, .fast _ args => applyFirst call args []
  | .receiver, .fast lead args => do
    let receiver := ((← get).heap.function? lead).bind Function.receiver
    tuple (lead :: receiver.getD .none :: args)
  | .countdown, .fast lead args =>
    match args.head?.bind Value.asInt? with
    | some n => if 0 < n then call lead [.int (n - 1)] [] else depth
    | none => depth
  | .recordKeywords, .fastKeywords lead view => do
    let args ← tuple view.positional
    let names ← tuple (view.names.map .text)
    let values ← tuple view.keywordValues
    tuple [lead, args, names, values]
  | .applyKeywords, .fastKeywords _ view => applyFirst call view.positional view.keywords
  | .attempt, .fastKeywords _ view =>
    outcome (applyFirst call view.positional view.keywords)
  | .boundMethod, .fastKeywords lead view => runBound call lead view
  | .hostFunction, .fastKeywords lead view => runHost call lead view

/-- Runs the entry point of an entry, unless what it is handed was refused or there is no level
left. `call` is how values are called one level deeper; it is absent when there is none. -/
def enter (call : Option Callee) (entry : Entry)
    (handed : Except CallError (Delivery entry.convention)) : Activity Value := do
  match handed with
  | .error e => do
    modifyThread fun t => { t with counts := t.counts.reject }
    throw e
  | .ok delivery =>
    let thread := (← get).thread
    match call, thread.hasRoom with
    | some call, true =>
      nested do
        modifyThread fun t => { t with counts := t.counts.record entry.convention }
        if entry.flags.has .host then runNative call entry.native delivery
        else
          reported .nativeCall (fun ok => if ok then .nativeReturn else .nativeError)
            entry.name (runNative call entry.native delivery)
    | _, _ => throw (.recursionLimit entry.name thread.limit)

def dispatchWith (call : Option Callee) (callable : Value) (f : Function) (args : List Value)
    (keywords : Keywords) : Activity Value := do
  enter call f.entry ((← get).deliver callable f args keywords)

/-- Calls a value: a function by `dispatch`, a closure directly. A closure that applies its first
argument passes the others on, so a chain of such closures ends with the arguments. -/
def callWith (dispatch : Value → Function → List Value → Keywords → Activity Value) :
    List Value → Value → Keywords → Activity Value
  | args, callee, keywords => do
    let rt ← get
    match rt.baseFunction? callee with
    | some f => dispatch callee f args keywords
    | none =>
      match rt.heap.object? callee with
      | some (.closure c) =>
        match c.body with
        | .collect => do
          let values ← tuple args
          let pairs ← keywords.mapM fun k => tuple [.text k.1, k.2]
          tuple [values, ← tuple pairs]
        | .fail => boom
        | .depth => depth
        | .apply =>
          match args with
          | [] => indexError 0
          | next :: rest => callWith dispatch rest next keywords
      | _ => throw (.notCallable (rt.typeName callee))

def callWithin : Nat → Callee
  | 0, callee, args, keywords => callWith (dispatchWith none) args callee keywords
  | room + 1, callee, args, keywords =>
    callWith (dispatchWith (some (callWithin room))) args callee keywords

/-- Calls a value. The room is what the recursion limit leaves, so it never runs out first. -/
def call (callee : Value) (args : List Value) (keywords : Keywords) : Activity Value := do
  callWithin (← get).thread.room callee args keywords

def callMethod (receiver : Value) (name : String) (args : List Value) (keywords : Keywords) :
    Activity Value :=
  callMethodWith call receiver name args keywords

/-- Calls an object in its own way, past dispatch. Functions have no way of their own. -/
def callDirectly (callee : Value) (args : List Value) (keywords : Keywords) : Activity Value := do
  let rt ← get
  match rt.heap.object? callee with
  | some (.closure _) => call callee args keywords
  | _ => throw (.notCallable (rt.typeName callee))

end Activity
end Callables
