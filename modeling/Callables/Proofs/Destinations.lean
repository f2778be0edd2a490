import Callables.Proofs.Packing

namespace Callables

/-- What a call is for, behind all wrappers: a native entry point with what it is handed, a body
with the arguments bound for it, or a closure with its arguments. -/
inductive Recipient
  | native {c : Convention} (native : Native c) (delivery : Delivery c)
  | body (host : HostCall)
  | closure (body : ClosureBody) (args : List Value) (keywords : Keywords)

abbrev Passing := Value → List Value → Keywords → Except CallError Recipient

namespace Runtime

/-- Where an entry point gets a call: the one of wrappers passes it on, the one of host-language
functions binds its arguments. -/
def handOver (rt : Runtime) (pass : Passing) :
    {c : Convention} → Native c → Delivery c → Except CallError Recipient
  | _, .boundMethod, .fastKeywords lead view =>
    let wrapper := rt.heap.function? lead
    match wrapper.bind Function.wrapped?, wrapper.bind Function.receiver with
    | some wrapped, some receiver => pass wrapped (receiver :: view.positional) view.keywords
    | _, _ => .error (.invalidEntry Entry.boundMethod.name "called without a bound method")
  | _, .hostFunction, .fastKeywords lead view => (rt.hostCall lead view).map .body
  | _, native, delivery => .ok (.native native delivery)

def direct (rt : Runtime) (pass : Option Passing) : Passing := fun callee args keywords =>
  match rt.baseFunction? callee with
  | none =>
    match rt.heap.object? callee with
    | some (.closure c) => .ok (.closure c.body args keywords)
    | _ => .error (.notCallable (rt.typeName callee))
  | some f =>
    match rt.deliver callee f args keywords, pass with
    | .error e, _ => .error e
    | .ok _, none => .error (.recursionLimit f.entry.name rt.thread.limit)
    | .ok delivery, some pass => rt.handOver pass f.entry.native delivery

section Directing

variable {rt : Runtime} {callee : Value} {f : Function} {args : List Value} {keywords : Keywords}

theorem direct_of_refused {e : CallError} (found : rt.baseFunction? callee = some f)
    (refused : rt.deliver callee f args keywords = .error e) (pass : Option Passing) :
    rt.direct pass callee args keywords = .error e := by
  simp only [direct, found, refused]

theorem direct_none {delivery : Delivery f.entry.convention}
    (found : rt.baseFunction? callee = some f)
    (accepted : rt.deliver callee f args keywords = .ok delivery) :
    rt.direct none callee args keywords =
      .error (.recursionLimit f.entry.name rt.thread.limit) := by
  simp only [direct, found, accepted]

theorem direct_some {delivery : Delivery f.entry.convention}
    (found : rt.baseFunction? callee = some f)
    (accepted : rt.deliver callee f args keywords = .ok delivery) (pass : Passing) :
    rt.direct (some pass) callee args keywords = rt.handOver pass f.entry.native delivery := by
  simp only [direct, found, accepted]

end Directing

/-- Where a call goes with room for a number of nested calls. -/
def destination (rt : Runtime) : Nat → Passing
  | 0 => rt.direct none
  | room + 1 => rt.direct (some (rt.destination room))

/-- It depends on nothing of the thread but the limit. -/
theorem destination_withThread {rt : Runtime} {thread : Thread}
    (same : thread.limit = rt.thread.limit) (room : Nat) :
    { rt with thread }.destination room = rt.destination room := by
  have direct (pass : Option Passing) : { rt with thread }.direct pass = rt.direct pass := by
    have limit (name : String) : CallError.recursionLimit name { rt with thread }.thread.limit =
        .recursionLimit name rt.thread.limit := by rw [← same]
    unfold Runtime.direct
    simp only [limit]
    rfl
  induction room with
  | zero => exact direct none
  | succ room ih =>
    rw [destination, ih]
    exact direct _

end Runtime

namespace Activity

def runBody (host : HostCall) : Activity Value := do
  let positional ← host.bound.positional.mapM tuple
  let keywords ← host.bound.keywords.mapM fun entries => allocate (.dict entries)
  let frame : Frame := {
    function := host.function, code := host.code
    parameters := host.bound.parameters, positional, keywords }
  holding (frame.held ++ host.snapshot)
    (reported .call (fun _ => .ret) host.name (evaluate call frame host.code.body))

def runClosure : ClosureBody → List Value → Keywords → Activity Value
  | .collect, args, keywords => do
    let values ← tuple args
    let pairs ← keywords.mapM fun k => tuple [.text k.1, k.2]
    tuple [values, ← tuple pairs]
  | .fail, _, _ => boom
  | .depth, _, _ => depth
  | .apply, args, keywords => applyFirst call args keywords

def serve : Recipient → Activity Value
  | .native native delivery => runNative call native delivery
  | .body host => runBody host
  | .closure body args keywords => runClosure body args keywords

variable {rt : Runtime} {callee : Value} {args : List Value} {keywords : Keywords}

theorem run_runHost_of_ok {lead : Value} {view : ArgsView} {host : HostCall}
    (ok : rt.hostCall lead view = .ok host) :
    (runHost call lead view).run rt = (runBody host).run rt := by
  unfold runHost runBody
  rw [run_get, ok]

theorem run_closure {c : Closure} (plain : rt.baseFunction? callee = none)
    (found : rt.heap.object? callee = some (.closure c)) :
    (call callee args keywords).run rt = (runClosure c.body args keywords).run rt := by
  rw [call_eq, callWith.eq_def, run_get, plain]
  dsimp only
  rw [found]
  dsimp only
  cases c.body with
  | collect | fail | depth => rfl
  | apply =>
    cases args with
    | nil => rfl
    | cons next rest =>
      dsimp only [runClosure, applyFirst]
      rw [call_eq]

/-- An activity that ends as a destination says: with the error and no change but of the thread, or
like the recipient, but for changes of the thread before and after. -/
def Ends (rt : Runtime) (activity : Activity Value) : Except CallError Recipient → Prop
  | .error e => ∃ thread, activity.run rt = (.error e, { rt with thread })
  | .ok r => ∃ before after, activity.run rt = (around before after (serve r)).run rt

theorem ends_of_run {activity : Activity Value} {r : Recipient}
    (runs : activity.run rt = (serve r).run rt) : Ends rt activity (.ok r) :=
  ⟨id, fun _ => id, runs⟩

theorem ends_of_throw {activity : Activity Value} {e : CallError}
    (fails : activity.run rt = (.error e, rt)) : Ends rt activity (.error e) :=
  ⟨rt.thread, fails⟩

theorem Ends.congr {a b : Activity Value} {goal : Except CallError Recipient}
    (same : a.run rt = b.run rt) (ends : Ends rt b goal) : Ends rt a goal := by
  unfold Ends
  rw [same]
  exact ends

theorem Ends.around {before : Thread → Thread} {after : Bool → Thread → Thread}
    {body : Activity Value} {goal : Except CallError Recipient}
    (ends : Ends { rt with thread := before rt.thread } body goal) :
    Ends rt (Activity.around before after body) goal := by
  cases goal with
  | error e =>
    obtain ⟨thread, ran⟩ := ends
    exact ⟨after false thread, by rw [run_around, ran]; rfl⟩
  | ok r =>
    obtain ⟨before', after', ran⟩ := ends
    exact ⟨before' ∘ before, fun ok => after ok ∘ after' ok, by rw [run_around, ran]; rfl⟩

/-- An entry point does what the destination says if the calls that it passes on do. -/
theorem runNative_ends {pass : Passing}
    (passes : ∀ callee args keywords,
      Ends rt (call callee args keywords) (pass callee args keywords))
    {c : Convention} (native : Native c) (delivery : Delivery c) :
    Ends rt (runNative call native delivery) (rt.handOver pass native delivery) := by
  cases native with
  | boundMethod =>
    cases delivery with
    | fastKeywords lead view =>
      change Ends rt (runBound call lead view) _
      unfold Ends runBound Runtime.handOver
      rw [run_get]
      dsimp only
      cases (rt.heap.function? lead).bind Function.wrapped? with
      | none => exact ends_of_throw rfl
      | some wrapped =>
        cases (rt.heap.function? lead).bind Function.receiver with
        | none => exact ends_of_throw rfl
        | some receiver => exact passes wrapped (receiver :: view.positional) view.keywords
  | hostFunction =>
    cases delivery with
    | fastKeywords lead view =>
      change Ends rt (runHost call lead view) ((rt.hostCall lead view).map .body)
      cases made : rt.hostCall lead view with
      | error e =>
        refine ends_of_throw ?_
        unfold runHost
        rw [run_get, made]
        rfl
      | ok host => exact ends_of_run (run_runHost_of_ok made)
  | lead | fail | depth | pair | callArgument | pack | packKeywords | record | count | refuse
  | apply | receiver | countdown | recordKeywords | applyKeywords | attempt =>
    exact ends_of_run rfl

/-- Closures are called past dispatch, and other objects that are no functions not at all. -/
theorem call_ends_of_plain (plain : rt.baseFunction? callee = none) (pass : Option Passing) :
    Ends rt (call callee args keywords) (rt.direct pass callee args keywords) := by
  unfold Runtime.direct
  rw [plain]
  dsimp only
  split
  · rename_i c found
    exact ends_of_run (run_closure plain found)
  · rename_i other
    refine ends_of_throw ?_
    rw [call_eq, callWith.eq_def, run_get, plain]
    dsimp only
    split
    · rename_i c found
      exact absurd found (other c)
    · rfl

/-- A call that dispatch refuses ends there. What is left is the call of a function that it lets
pass. -/
theorem call_ends_of_accepted {pass : Option Passing}
    (accepted : ∀ f delivery, rt.baseFunction? callee = some f →
      rt.deliver callee f args keywords = .ok delivery →
      Ends rt (call callee args keywords) (rt.direct pass callee args keywords)) :
    Ends rt (call callee args keywords) (rt.direct pass callee args keywords) := by
  cases found : rt.baseFunction? callee with
  | none => exact call_ends_of_plain found pass
  | some f =>
    cases result : rt.deliver callee f args keywords with
    | ok delivery => exact accepted f delivery found result
    | error e =>
      have runs := run_callWith found (dispatchWith (some call)) args keywords
      rw [← call_eq] at runs
      rw [Runtime.direct_of_refused found result]
      exact ⟨_, runs.trans (run_dispatchWith_refused result _)⟩

/-- Without a level left a call does not get to its entry point. -/
theorem call_ends_of_full (full : rt.thread.hasRoom = false) :
    Ends rt (call callee args keywords) (rt.direct none callee args keywords) := by
  refine call_ends_of_accepted fun f delivery found accepted => ?_
  have runs := run_callWith found (dispatchWith (some call)) args keywords
  rw [← call_eq] at runs
  rw [Runtime.direct_none found accepted]
  exact ends_of_throw (runs.trans (run_dispatchWith_limited accepted full _))

/-- With a level left a call ends as its entry point does on the level behind it. -/
theorem call_ends_of_room {pass : Passing} (room : rt.thread.hasRoom = true)
    (passes : ∀ f, rt.baseFunction? callee = some f → ∀ callee args keywords,
      Ends { rt with thread := f.entry.opening rt.thread } (call callee args keywords)
        (pass callee args keywords)) :
    Ends rt (call callee args keywords) (rt.direct (some pass) callee args keywords) := by
  refine call_ends_of_accepted fun f delivery found accepted => ?_
  have runs := run_callWith found (dispatchWith (some call)) args keywords
  rw [← call_eq] at runs
  rw [Runtime.direct_some found accepted]
  refine Ends.congr (runs.trans (run_dispatchWith_entered accepted room call)) (.around ?_)
  exact runNative_ends (passes f found) f.entry.native delivery

/-- A call does what its destination does: if it has none, it fails and changes nothing but the
thread; otherwise it ends as its recipient does. -/
theorem call_ends (rt : Runtime) (callee : Value) (args : List Value) (keywords : Keywords) :
    Ends rt (call callee args keywords)
      (rt.destination rt.thread.room callee args keywords) := by
  generalize levels : rt.thread.room = room
  induction room generalizing rt callee args keywords with
  | zero =>
    have full : rt.thread.hasRoom = false := by
      unfold Thread.room at levels
      exact decide_eq_false (by omega)
    exact call_ends_of_full full
  | succ room ih =>
    have below : rt.thread.depth < rt.thread.limit.toNat := by
      unfold Thread.room at levels
      omega
    refine call_ends_of_room (decide_eq_true below) fun f _ wrapped args keywords => ?_
    -- Behind the dispatch there is one level less, and nothing else that a way depends on.
    obtain ⟨depth, limit⟩ := Thread.Level.mk.inj (Thread.level_opening f.entry rt.thread)
    have fewer : (f.entry.opening rt.thread).room = room := by
      unfold Thread.room at levels ⊢
      rw [depth, limit]
      omega
    have inner := ih { rt with thread := f.entry.opening rt.thread } wrapped args keywords fewer
    rwa [Runtime.destination_withThread limit] at inner

end Activity
end Callables
