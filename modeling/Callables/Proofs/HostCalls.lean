import Callables.Proofs.Faults
import Callables.Proofs.Recording

namespace Callables

namespace Runtime

/-- What a call of a callable binds its arguments for: a host-language function with its metadata
and its code. A wrapper that stands for one adds its receiver. -/
inductive Hosts (rt : Runtime) : Value → Option Value → Metadata → Code → Prop
  | function {callee : Value} {f : Function} {m : Metadata} {place : Ref} {c : Code}
      (found : rt.heap.function? callee = some f) (defined : f.kind = .defined m)
      (coded : m.code = some place) (code : rt.heap.get? place = some (.code c)) :
      Hosts rt callee none m c
  | wrapper {callee wrapped receiver : Value} {w : Function} {m : Metadata} {c : Code}
      (found : rt.heap.function? callee = some w) (wraps : w.kind = .method wrapped)
      (bound : w.receiver = some receiver) (entry : w.entry = .hostFunction)
      (unowned : w.owner = none) (inner : Hosts rt wrapped none m c) :
      Hosts rt callee (some receiver) m c

def definition? (rt : Runtime) (function : Value) : Option (Metadata × Code) :=
  (rt.heap.function? function).bind fun f =>
    match f.kind with
    | .defined m => (m.code.bind fun place => rt.heap.code? (.object place)).map (m, ·)
    | _ => none

def hosted? (rt : Runtime) (callee : Value) : Option (Option Value × Metadata × Code) :=
  (rt.heap.function? callee).bind fun f =>
    match f.kind, f.receiver with
    | .method wrapped, some receiver =>
      if f.entry = .hostFunction ∧ f.owner = none then
        (rt.definition? wrapped).map (some receiver, ·)
      else none
    | _, _ => (rt.definition? callee).map (none, ·)

theorem hosts_of_definition? {rt : Runtime} {function : Value} {m : Metadata} {c : Code}
    (found : rt.definition? function = some (m, c)) : rt.Hosts function none m c := by
  obtain ⟨f, held, defined⟩ := Option.bind_eq_some_iff.mp found
  split at defined
  · rename_i kind
    obtain ⟨c', code, same⟩ := Option.map_eq_some_iff.mp defined
    obtain ⟨rfl, rfl⟩ := Prod.mk.inj same
    obtain ⟨place, coded, there⟩ := Option.bind_eq_some_iff.mp code
    obtain ⟨o, there, view⟩ := Option.bind_eq_some_iff.mp there
    exact .function held kind coded (Object.code?_eq_some.mp view ▸ there)
  · cases defined

theorem hosts_of_hosted? {rt : Runtime} {callee : Value} {receiver : Option Value} {m : Metadata}
    {c : Code} (found : rt.hosted? callee = some (receiver, m, c)) :
    rt.Hosts callee receiver m c := by
  obtain ⟨f, held, hosted⟩ := Option.bind_eq_some_iff.mp found
  split at hosted
  · rename_i wraps bound
    split at hosted
    · rename_i direct
      obtain ⟨⟨m', c'⟩, inner, same⟩ := Option.map_eq_some_iff.mp hosted
      cases same
      exact .wrapper held wraps bound direct.1 direct.2 (hosts_of_definition? inner)
    · cases hosted
  · obtain ⟨⟨m', c'⟩, inner, same⟩ := Option.map_eq_some_iff.mp hosted
    cases same
    exact hosts_of_definition? inner

def defaultsOf (rt : Runtime) (m : Metadata) : Defaults Value where
  positional := rt.heap.itemsAt m.defaults
  keywordOnly := rt.heap.entriesAt m.keywordDefaults

def counting (rt : Runtime) (c : Convention) : Runtime :=
  { rt with thread := { rt.thread with counts := rt.thread.counts.record c } }

/-- A call looks through a wrapper, if there is one, for the function and its receiver. -/
theorem map_bound_hostCall_of_found (rt : Runtime) {lead function : Value}
    {wrapper : Option Function} {receiver : Option Value} {f : Function} {m : Metadata}
    {place : Ref} {c : Code}
    (outer : (rt.heap.function? lead).filter Function.isMethod = wrapper)
    (inner : (wrapper.bind Function.wrapped?).getD lead = function)
    (bound : wrapper.bind Function.receiver = receiver)
    (found : rt.heap.function? function = some f) (defined : f.kind = .defined m)
    (coded : m.code = some place) (code : rt.heap.get? place = some (.code c)) (view : ArgsView) :
    (rt.hostCall lead view).map HostCall.bound =
      (c.parameters.bind m.qualname.content (rt.defaultsOf m)
        (receiver.toList ++ view.positional) view.keywords.byName).mapError .binding := by
  have held : (rt.heap.function? function).bind Function.metadata? = some m := by
    rw [found]
    simp [Function.metadata?, FunctionKind.metadata?, defined]
  have runs : m.code.bind (fun r => rt.heap.code? (.object r)) = some c := by
    rw [coded]
    simp [Heap.code?, Heap.object?, Object.code?, code]
  unfold hostCall
  simp only [outer, inner, bound, held, runs, defaultsOf]
  split <;> rename_i result <;> rw [result] <;> rfl

/-- What a host-language call runs on is bound to the parameters of the code that it runs, from the
keywords that its entry point was handed. -/
theorem exists_bind_of_hostCall {rt : Runtime} {lead : Value} {view : ArgsView} {host : HostCall}
    (ok : rt.hostCall lead view = .ok host) :
    ∃ defaults args, host.code.parameters.bind host.name defaults args view.keywords.byName =
      .ok host.bound := by
  unfold hostCall at ok
  dsimp only at ok
  split at ok
  · cases ok
  · split at ok
    · cases ok
    · split at ok
      · cases ok
      · rename_i bound
        cases ok
        exact ⟨_, _, bound⟩

namespace Hosts

variable {rt : Runtime} {callee : Value} {receiver : Option Value} {m : Metadata} {c : Code}

/-- The arguments are bound to the parameters of the code, the receiver first. -/
theorem map_bound_hostCall (h : rt.Hosts callee receiver m c) (view : ArgsView) :
    (rt.hostCall callee view).map HostCall.bound =
      (c.parameters.bind m.qualname.content (rt.defaultsOf m)
        (receiver.toList ++ view.positional) view.keywords.byName).mapError .binding := by
  cases h with
  | function found defined coded code =>
    have plain : (rt.heap.function? callee).filter Function.isMethod = none := by
      rw [found]
      simp [Function.isMethod, Function.wrapped?, FunctionKind.wrapped?, defined]
    exact rt.map_bound_hostCall_of_found plain rfl rfl found defined coded code view
  | @wrapper _ wrapped receiver w _ _ outer wraps bound _ _ inner =>
    cases inner with
    | function found defined coded code =>
      have through : w.wrapped? = some wrapped := by
        simp [Function.wrapped?, FunctionKind.wrapped?, wraps]
      have wrapper : (rt.heap.function? callee).filter Function.isMethod = some w := by
        rw [outer]
        simp [Function.isMethod, through]
      exact rt.map_bound_hostCall_of_found wrapper (congrArg (·.getD callee) through) bound found
        defined coded code view

theorem bind_of_hostCall (h : rt.Hosts callee receiver m c) {view : ArgsView} {host : HostCall}
    (ok : rt.hostCall callee view = .ok host) :
    c.parameters.bind m.qualname.content (rt.defaultsOf m) (receiver.toList ++ view.positional)
      view.keywords.byName = .ok host.bound := by
  have bound := h.map_bound_hostCall view
  rw [ok] at bound
  generalize c.parameters.bind m.qualname.content (rt.defaultsOf m)
    (receiver.toList ++ view.positional) view.keywords.byName = result at bound ⊢
  cases result with
  | error e => cases bound
  | ok b => exact congrArg Except.ok (Except.ok.inj bound).symm

theorem hostCall_eq_error_iff (h : rt.Hosts callee receiver m c) {view : ArgsView}
    {e : BindingError} :
    rt.hostCall callee view = .error (.binding e) ↔
      c.parameters.bind m.qualname.content (rt.defaultsOf m)
        (receiver.toList ++ view.positional) view.keywords.byName = .error e := by
  have bound := h.map_bound_hostCall view
  generalize c.parameters.bind m.qualname.content (rt.defaultsOf m)
    (receiver.toList ++ view.positional) view.keywords.byName = result at bound ⊢
  generalize rt.hostCall callee view = made at bound ⊢
  cases result with
  | error e' =>
    cases made with
    | error e'' =>
      obtain rfl : e'' = .binding e' := Except.error.inj bound
      simp
    | ok host => cases bound
  | ok b =>
    cases made with
    | error e'' => cases bound
    | ok host => simp

/-- It is called through the entry that all host-language functions share, with no owner class. -/
theorem dispatched (h : rt.Hosts callee receiver m c) (sound : rt.Sound) :
    ∃ f, rt.baseFunction? callee = some f ∧ f.entry = .hostFunction ∧ f.owner = none := by
  cases h with
  | function found defined =>
    obtain ⟨entry, unowned, -⟩ := (sound.fits found).host (by simp [Function.isHost, defined])
    exact ⟨_, sound.baseFunction?_eq found, entry, unowned⟩
  | wrapper found _ _ entry unowned => exact ⟨_, sound.baseFunction?_eq found, entry, unowned⟩

/-- Where there is room, its call binds the arguments and runs the body. -/
theorem run_call (h : rt.Hosts callee receiver m c) (sound : rt.Sound)
    (room : rt.thread.hasRoom = true) (args : List Value) (keywords : Keywords) :
    (Activity.call callee args keywords).run rt =
      (Activity.around Entry.hostFunction.opening Entry.hostFunction.closing
        (Activity.runHost Activity.call callee (.ofCall args keywords))).run rt := by
  obtain ⟨f, found, entry, unowned⟩ := h.dispatched sound
  have checked : rt.checkReceiver f args = .ok () := by
    simp [Runtime.checkReceiver, unowned]
  rw [Activity.call_eq, Activity.run_callWith found]
  refine (deliver_host callee entry checked keywords fun entry handed =>
    (Activity.enter (some Activity.call) entry handed).run rt).trans ?_
  exact Activity.run_enter_ok room Activity.call .hostFunction _

theorem run_call_of_bind_error (h : rt.Hosts callee receiver m c) (sound : rt.Sound)
    (room : rt.thread.hasRoom = true) {args : List Value} {keywords : Keywords} {e : BindingError}
    (failed : c.parameters.bind m.qualname.content (rt.defaultsOf m) (receiver.toList ++ args)
      keywords.byName = .error e) :
    (Activity.call callee args keywords).run rt =
      (.error (.binding e), rt.counting .fastKeywords) := by
  have refused (thread : Thread) : { rt with thread }.hostCall callee (.ofCall args keywords) =
      .error (.binding e) := by
    have unread : { rt with thread }.hostCall callee (.ofCall args keywords) =
        rt.hostCall callee (.ofCall args keywords) := rfl
    rw [unread, h.hostCall_eq_error_iff, ArgsView.positional_ofCall, ArgsView.keywords_ofCall]
    exact failed
  have ends (thread : Thread) :
      (Activity.runHost Activity.call callee (.ofCall args keywords)).run { rt with thread } =
        (.error (.binding e), { rt with thread }) := by
    unfold Activity.runHost
    rw [Activity.run_get, refused]
    rfl
  rw [h.run_call sound room, Activity.run_around, ends]
  rfl

end Hosts
end Runtime

namespace Signature

/-- Binding reports the right fault. For code in the documented layout, binding fails with an
error exactly if the call has that fault: of all the faults that it may have at once, the first one
in the order in which they are looked for, with the names as they are declared. A call of a function
with such code, itself or through a wrapper, whose receiver counts as an argument, ends with that
error before the body begins; nothing changes but the count of calls. -/
theorem bind_reports_fault (s : Signature) :
    (∀ {α : Type} (function : String) (defaults : Defaults α) (args : List α)
      (keywords : List (String × α)) (e : BindingError),
      s.parameters.bind function defaults args keywords = .error e ↔
        s.Fault function defaults args keywords e) ∧
    ∀ rt : Runtime, rt.Reachable → ∀ callee receiver m c, rt.Hosts callee receiver m c →
      c.parameters = s.parameters → ∀ (args : List Value) (keywords : Keywords) (e : BindingError),
        (rt.hostCall callee (.ofCall args keywords) = .error (.binding e) ↔
          s.Fault m.qualname.content (rt.defaultsOf m) (receiver.toList ++ args)
            keywords.byName e) ∧
        (s.Fault m.qualname.content (rt.defaultsOf m) (receiver.toList ++ args)
            keywords.byName e →
          rt.thread.hasRoom = true →
          (Activity.call callee args keywords).run rt =
            (.error (.binding e), rt.counting .fastKeywords)) := by
  refine ⟨fun function defaults args keywords e => bind_eq_error_iff_fault, ?_⟩
  intro rt reachable callee receiver m c hosts layout args keywords e
  constructor
  · rw [hosts.hostCall_eq_error_iff, ArgsView.positional_ofCall, ArgsView.keywords_ofCall, layout]
    exact bind_eq_error_iff_fault
  · intro fault room
    refine hosts.run_call_of_bind_error reachable.sound room ?_
    rw [layout]
    exact bind_eq_error_iff_fault.mpr fault

def divided : Signature where
  positional := ["a"]
  rest := none
  keywordOnly := [["c"]]
  extra := none
  distinct := by decide
  few_positional := by decide
  few_keywordOnly := by decide

end Signature

namespace Session

def divided : Session :=
  (start .standard .empty).run [
    (.newCode ⟨"f", none, none, Signature.divided.parameters, [], .parameter "a"⟩, some "code"),
    (.newHostFunction (.kept "code") (.dict []) none none, some "f"),
    (.bindMethod (.kept "f") (.int 7), some "m")]

theorem divided_reachable : divided.Reachable :=
  (Reachable.start _ _).run (by decide +kernel)

end Session

namespace Signature

/-- The receiver counts among the arguments, and a missing keyword-only parameter has the name it
was declared with. -/
theorem divided_reports_fault :
    let rt := Session.divided.runtime
    (Activity.call (.object 3) [.int 1, .int 2] []).run rt =
        (.error (.binding (.tooManyPositional "f" 1 3)), rt.counting .fastKeywords) ∧
      (Activity.call (.object 3) [] []).run rt =
        (.error (.binding (.missingKeywordOnly "f" "c")), rt.counting .fastKeywords) := by
  have reachable := Runtime.Reachable.of_session Session.divided_reachable
  have made : (Session.divided.runtime.hosted? (.object 3)).map (fun host =>
      (host.1, host.2.1.qualname.content, host.2.2.parameters)) =
        some (some (.int 7), "f", divided.parameters) := by
    decide +kernel
  have plain : (Session.divided.runtime.hosted? (.object 3)).map (fun host =>
      (Session.divided.runtime.defaultsOf host.2.1).keywordOnly.keys) = some [] := by
    decide +kernel
  have room : Session.divided.runtime.thread.hasRoom = true := by decide +kernel
  obtain ⟨⟨receiver, m, c⟩, found, same⟩ := Option.map_eq_some_iff.mp made
  obtain ⟨rfl, name, layout⟩ : receiver = some (.int 7) ∧ m.qualname.content = "f" ∧
      c.parameters = divided.parameters := by
    simpa using same
  have reports := (divided.bind_reports_fault).2 _ reachable _ _ _ _
    (Runtime.hosts_of_hosted? found) layout
  simp only [found, Option.map_some, Option.some.injEq] at plain
  rw [name] at reports
  refine ⟨(reports _ _ _).2 (.tooManyPositional (by decide) rfl) room, (reports _ _ _).2 ?_ room⟩
  -- The receiver fills the only positional parameter.
  refine .missingKeywordOnly (.inl (by decide)) (divided.keywordsFit_nil _)
    (fun j other lacks => ?_) ⟨rfl, List.not_mem_nil, by simp [plain]⟩ (fun _ _ _ => Nat.zero_le _)
  have placed : 1 ≤ j := lacks.unplaced
  have declared : j < 1 := (List.getElem?_eq_some_iff.mp lacks.declared).1
  omega

end Signature
end Callables
