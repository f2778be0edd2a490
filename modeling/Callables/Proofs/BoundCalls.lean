import Callables.Proofs.Sessions

namespace Callables

/-- What a call comes down to before its entry point runs: the arguments that a native entry point
is handed, or how a host-language function binds them into a frame. -/
inductive Handed
  | native {c : Convention} (delivery : Delivery c)
  | host (frame : Except CallError HostCall)

def Handed.of (rt : Runtime) : {c : Convention} → Native c → Delivery c → Handed
  | _, .hostFunction, .fastKeywords lead view => .host (rt.hostCall lead view)
  | _, _, delivery => .native delivery

def Runtime.handed (rt : Runtime) (callable : Value) (f : Function) (args : List Value)
    (keywords : Keywords) : Except CallError Handed :=
  (rt.deliver callable f args keywords).map (Handed.of rt f.entry.native)

/-- A function that takes the first argument of a call as its receiver: a host-language function, or
one with an owner class and no flag that says otherwise. -/
def Function.TakesReceiver (f : Function) : Prop :=
  f.isHost = true ∨ f.owner.isSome = true ∧ f.entry.flags.has .passFunction = false ∧
    f.entry.flags.has .keepSelf = false

theorem Function.Alike.takesReceiver {f g : Function} (a : f.Alike g) (h : f.TakesReceiver) :
    g.TakesReceiver := by
  unfold Function.TakesReceiver
  rw [a.isHost, a.owner, a.entry]
  exact h

namespace Runtime

structure Wraps (rt : Runtime) (wrapper : Value) (w : Function) (callable : Value) (f : Function)
    (receiver : Value) : Prop where
  outer : rt.heap.function? wrapper = some w
  inner : rt.heap.function? callable = some f
  wrapped : w.wrapped? = some callable
  entry : w.entry = f.entry
  owner : w.owner = f.owner
  bound : w.receiver = some receiver
  unbound : f.receiver = none
  conforms : ∀ owner, f.owner = some owner → rt.conforms f.entry owner receiver = true
  host : f.isHost = true → f.entry = .hostFunction ∧ f.owner = none

namespace Wraps

variable {rt : Runtime} {wrapper callable receiver : Value} {w f : Function}

/-- A host-language function runs on the same frame: the wrapper is looked through, and its receiver
goes in front. -/
theorem hostCall (h : rt.Wraps wrapper w callable f receiver) (plain : f.wrapped? = none)
    (args : List Value) (keywords : Keywords) :
    rt.hostCall wrapper (.ofCall args keywords) =
      rt.hostCall callable (.ofCall (receiver :: args) keywords) := by
  have through : (rt.heap.function? wrapper).filter Function.isMethod = some w := by
    simp [h.outer, Function.isMethod, h.wrapped]
  have direct : (rt.heap.function? callable).filter Function.isMethod = none := by
    simp [h.inner, Function.isMethod, plain]
  unfold Runtime.hostCall
  simp only [through, direct, Option.bind_some, Option.bind_none, h.wrapped, h.bound,
    Option.getD_some, Option.getD_none, ArgsView.positional_ofCall, ArgsView.keywords_ofCall,
    Option.toList_some, Option.toList_none, List.singleton_append, List.nil_append]

/-- A native entry point is handed the receiver as leading argument either way. -/
theorem leadingArgument (h : rt.Wraps wrapper w callable f receiver)
    (owned : f.owner.isSome = true) (lead : f.entry.flags.has .passFunction = false)
    (sliced : f.entry.flags.has .keepSelf = false) (args : List Value) :
    Runtime.leadingArgument wrapper w args =
      Runtime.leadingArgument callable f (receiver :: args) := by
  simp [Runtime.leadingArgument, h.entry, h.bound, h.unbound, owned, lead, sliced]

theorem checkReceiver (h : rt.Wraps wrapper w callable f receiver) (args : List Value) :
    rt.checkReceiver w args = .ok () ∧ rt.checkReceiver f (receiver :: args) = .ok () := by
  constructor
  · unfold Runtime.checkReceiver
    rw [h.bound]
    cases w.owner <;> rfl
  · unfold Runtime.checkReceiver
    rw [h.unbound]
    cases ho : f.owner with
    | none => rfl
    | some owner => simp [checkSelf, h.conforms owner ho]

/-- Whatever is made of what the two native calls are handed is the same. -/
theorem deliver_native (h : rt.Wraps wrapper w callable f receiver)
    (owned : f.owner.isSome = true) (lead : f.entry.flags.has .passFunction = false)
    (sliced : f.entry.flags.has .keepSelf = false) (args : List Value) (keywords : Keywords)
    {β : Type} (made : (entry : Entry) → Except CallError (Delivery entry.convention) → β) :
    made w.entry (rt.deliver wrapper w args keywords) =
      made f.entry (rt.deliver callable f (receiver :: args) keywords) := by
  obtain ⟨outer, inner⟩ := h.checkReceiver args
  rw [deliver_eq, deliver_eq, outer, inner, h.leadingArgument owned lead sliced args]
  dsimp only
  rw [h.entry]

end Wraps

theorem accept_hostFunction (lead : Value) (args : List Value) (keywords : Keywords) :
    Entry.hostFunction.accept lead args keywords =
      .ok (.fastKeywords lead (.ofCall args keywords)) := by
  have selects : Convention.ofFlags? Entry.hostFunction.flags = some .fastKeywords := by decide
  have valid : Entry.hostFunction.validate = .ok .fastKeywords := if_pos selects
  rw [accept_eq, valid]
  simp [Delivery.make, Entry.hostFunction, Convention.acceptsKeywords]

/-- A host-language function is handed to its entry point as it was called. -/
theorem deliver_host {rt : Runtime} (callable : Value) {f : Function} {args : List Value}
    (host : f.entry = .hostFunction) (checked : rt.checkReceiver f args = .ok ())
    (keywords : Keywords) {β : Type}
    (made : (entry : Entry) → Except CallError (Delivery entry.convention) → β) :
    made f.entry (rt.deliver callable f args keywords) =
      made .hostFunction (.ok (.fastKeywords callable (.ofCall args keywords))) := by
  have lead : leadingArgument callable f args = (callable, args) := by
    have passes : Entry.hostFunction.flags.has .passFunction = true := by decide
    simp [leadingArgument, host, passes]
  rw [deliver_eq, checked, lead]
  dsimp only
  rw [host, accept_hostFunction]

end Runtime

namespace Activity

variable {rt : Runtime}

theorem run_nested (body : Activity Value) (rt : Runtime) :
    (nested body).run rt =
      (let ran := body.run { rt with thread := rt.thread.enter }
       (ran.1, { ran.2 with thread := ran.2.thread.leave })) := by
  rcases h : body.run { rt with thread := rt.thread.enter } with ⟨result, rt'⟩
  have observed : (observe body).run { rt with thread := rt.thread.enter } = (.ok result, rt') := by
    rw [run_observe, h]
  have entered : (modifyThread Thread.enter).run rt =
      (.ok (), { rt with thread := rt.thread.enter }) := rfl
  unfold nested
  rw [run_bind, entered]
  dsimp only
  rw [run_bind, observed]
  cases result <;> rfl

theorem run_runHost {c : Callee} {lead lead' : Value} {view view' : ArgsView}
    (h : rt.hostCall lead view = rt.hostCall lead' view') :
    (runHost c lead view).run rt = (runHost c lead' view').run rt := by
  unfold runHost
  rw [run_get, run_get, h]

/-- An entry that reports its own events does the same for two deliveries if its entry point
does. -/
theorem run_enter {entry : Entry} (host : entry.flags.has .host = true)
    {delivery delivery' : Delivery entry.convention}
    (same : ∀ c thread, (runNative c entry.native delivery).run { rt with thread } =
      (runNative c entry.native delivery').run { rt with thread }) (call : Option Callee) :
    (enter call entry (.ok delivery)).run rt = (enter call entry (.ok delivery')).run rt := by
  unfold enter
  dsimp only
  rw [run_get, run_get]
  cases call with
  | none => rfl
  | some c =>
    cases rt.thread.hasRoom with
    | false => rfl
    | true =>
      dsimp only
      have counted (thread : Thread) : (modifyThread fun t =>
          { t with counts := t.counts.record entry.convention }).run { rt with thread } =
          (.ok (), { rt with
            thread := { thread with counts := thread.counts.record entry.convention } }) := rfl
      rw [run_nested, run_nested, run_bind, run_bind, counted]
      dsimp only
      rw [if_pos host, if_pos host, same]

end Activity

namespace Runtime.Wraps

variable {rt : Runtime} {wrapper callable receiver : Value} {w f : Function}

theorem dispatch (h : rt.Wraps wrapper w callable f receiver) (takes : f.TakesReceiver)
    (call : Option Callee) (args : List Value) (keywords : Keywords) :
    (Activity.dispatchWith call wrapper w args keywords).run rt =
        (Activity.dispatchWith call callable f (receiver :: args) keywords).run rt ∧
      rt.handed wrapper w args keywords = rt.handed callable f (receiver :: args) keywords := by
  cases takes with
  | inl host =>
    obtain ⟨outer, inner⟩ := h.checkReceiver args
    obtain ⟨entry, _⟩ := h.host host
    have plain : f.wrapped? = none := by
      obtain ⟨_, _, _, _, _, kind⟩ := f
      cases kind with
      | defined => rfl
      | builtin | native | method => simp [Function.isHost] at host
    constructor
    · have left := deliver_host wrapper (h.entry.trans entry) outer keywords
        fun entry handed => (Activity.enter call entry handed).run rt
      have right := deliver_host callable entry inner keywords
        fun entry handed => (Activity.enter call entry handed).run rt
      refine left.trans (Eq.trans ?_ right.symm)
      refine Activity.run_enter (by decide) (fun c thread => ?_) call
      exact Activity.run_runHost (h.hostCall plain args keywords)
    · have left := deliver_host wrapper (h.entry.trans entry) outer keywords
        fun entry handed => handed.map (Handed.of rt entry.native)
      have right := deliver_host callable entry inner keywords
        fun entry handed => handed.map (Handed.of rt entry.native)
      refine left.trans (Eq.trans ?_ right.symm)
      exact congrArg (fun frame => Except.ok (Handed.host frame)) (h.hostCall plain args keywords)
  | inr native =>
    obtain ⟨owned, lead, sliced⟩ := native
    have same {β : Type} := h.deliver_native owned lead sliced args keywords (β := β)
    exact ⟨same fun entry handed => (Activity.enter call entry handed).run rt,
      same fun entry handed => handed.map (Handed.of rt entry.native)⟩

/-- The call of a wrapper is the call of its function with the receiver in front. -/
theorem run_call (h : rt.Wraps wrapper w callable f receiver) (sound : rt.Sound)
    (takes : f.TakesReceiver) (args : List Value) (keywords : Keywords) :
    (Activity.call wrapper args keywords).run rt =
      (Activity.call callable (receiver :: args) keywords).run rt := by
  have outer := sound.baseFunction?_eq h.outer
  have inner := sound.baseFunction?_eq h.inner
  obtain ⟨level, calls⟩ := Activity.run_call rt
  rw [calls outer, calls inner, (h.dispatch takes level args keywords).1]

end Runtime.Wraps

namespace Runtime

/-- Binding an unbound function leaves a direct wrapper behind. -/
theorem function?_bindMethod {rt rt' : Runtime} {callable receiver m : Value} {f : Function}
    (hf : rt.baseFunction? callable = some f) (unbound : f.receiver = none)
    (bound : (Activity.bindMethod callable receiver).run rt = (.ok m, rt')) :
    rt'.heap.function? m = some (directWrapper callable f receiver) := by
  obtain ⟨w, hw, made, -⟩ := exists_wrapper_of_bindMethod bound
  have direct : w = directWrapper callable f receiver := by
    rcases wrapper_cases hw with ⟨_, _, _, wrapped⟩ | ⟨g, hg, _, _, direct⟩
    · exact absurd unbound (wrapped f hf)
    · obtain rfl := Option.some.inj (hf.symm.trans hg)
      exact direct
  exact direct ▸ made

theorem Sound.changes_bindMethod {rt rt' : Runtime} (sound : rt.Sound)
    {callable receiver m : Value} (hc : rt.Knows callable) (hr : rt.Knows receiver)
    (bound : (Activity.bindMethod callable receiver).run rt = (.ok m, rt')) : rt.Changes rt' := by
  have safe := (Activity.safe_bindMethod sound hc hr).changes
  rw [bound] at safe
  exact safe

/-- The wrapper of a function stays one as long as it is there. -/
theorem Sound.wraps {rt₀ rt₁ rt : Runtime} (sound : rt₀.Sound) {callable receiver m : Value}
    {f : Function} (hf : rt₀.baseFunction? callable = some f) (unbound : f.receiver = none)
    (hr : rt₀.Knows receiver)
    (bound : (Activity.bindMethod callable receiver).run rt₀ = (.ok m, rt₁))
    (later : rt₁.Reaches rt) (live : rt.Knows m) :
    ∃ w g, rt.Wraps m w callable g receiver ∧ f.Alike g := by
  have inner := function?_of_baseFunction? hf
  have changes := sound.changes_bindMethod (knows_of_function? inner) hr bound
  have sound' := (sound.changes changes).reaches later
  obtain ⟨w, hw, alike⟩ := ((sound.changes changes).persists later).function
    (function?_bindMethod hf unbound bound) live
  have wrapped : w.wrapped? = some callable := alike.wrapped
  have through := (sound.persists changes.reaches).trans ((sound.changes changes).persists later)
  obtain ⟨g, hg, alike'⟩ := through.function inner (sound'.knows_wrapped hw wrapped)
  refine ⟨w, g, ?_, alike'⟩
  have entry : w.entry = g.entry := alike.entry.trans alike'.entry.symm
  have owner : w.owner = g.owner := alike.owner.trans alike'.owner.symm
  refine ⟨hw, hg, wrapped, entry, owner, alike.receiver, alike'.receiver.trans unbound, ?_, ?_⟩
  · intro o ho
    exact entry ▸ (sound'.fits hw).conforms (owner.trans ho) alike.receiver
  · intro host
    obtain ⟨entry, owner, _⟩ := (sound'.fits hg).host host
    exact ⟨entry, owner⟩

/-- A bound wrapper calls like its function with the receiver in front, from then on. Both calls go
the same way, to the same end, and hand the entry point the same. -/
theorem Reachable.bound_call_eq_unbound_call {rt₀ rt₁ rt : Runtime} (h : rt₀.Reachable)
    {callable receiver m : Value} {f : Function} (hf : rt₀.baseFunction? callable = some f)
    (unbound : f.receiver = none) (takes : f.TakesReceiver) (hr : rt₀.Knows receiver)
    (bound : (Activity.bindMethod callable receiver).run rt₀ = (.ok m, rt₁))
    (later : rt₁.Reaches rt) (live : rt.Knows m) (args : List Value) (keywords : Keywords) :
    (Activity.call m args keywords).run rt =
        (Activity.call callable (receiver :: args) keywords).run rt ∧
      ∃ w g, rt.baseFunction? m = some w ∧ rt.baseFunction? callable = some g ∧
        rt.handed m w args keywords = rt.handed callable g (receiver :: args) keywords := by
  have sound := h.sound
  obtain ⟨w, g, wraps, alike⟩ := sound.wraps hf unbound hr bound later live
  have known := knows_of_function? (function?_of_baseFunction? hf)
  have changes := sound.changes_bindMethod known hr bound
  have reachable := (h.reaches changes.reaches).reaches later
  have outer := reachable.sound.baseFunction?_eq wraps.outer
  have inner := reachable.sound.baseFunction?_eq wraps.inner
  have takes' := alike.takesReceiver takes
  have handed := (wraps.dispatch takes' none args keywords).2
  exact ⟨wraps.run_call reachable.sound takes' args keywords, w, g, outer, inner, handed⟩

theorem bound_call_enlisted :
    ∃ f rt₁, Session.enlisted.runtime.baseFunction? (.object 0) = some f ∧
      f.receiver = none ∧ f.TakesReceiver ∧
      (Activity.bindMethod (.object 0) (.object 1)).run Session.enlisted.runtime =
        (.ok (.object 3), rt₁) ∧
      (Activity.call (.object 3) [.int 1] []).run rt₁ =
        (Activity.call (.object 0) [.object 1, .int 1] []).run rt₁ := by
  have reachable := Reachable.of_session Session.enlisted_reachable
  obtain ⟨f, hf, unbound, takes⟩ : ∃ f,
      Session.enlisted.runtime.baseFunction? (.object 0) = some f ∧ f.receiver = none ∧
        f.TakesReceiver := by
    have facts : (Session.enlisted.runtime.baseFunction? (.object 0)).any (fun f =>
        f.receiver.isNone && (f.owner.isSome && !f.entry.flags.has .passFunction &&
          !f.entry.flags.has .keepSelf)) = true := by decide +kernel
    obtain ⟨f, hf, kept⟩ := (Option.any_eq_true ..).mp facts
    simp only [Bool.and_eq_true, Bool.not_eq_true', Option.isNone_iff_eq_none] at kept
    obtain ⟨unbound, ⟨owned, lead⟩, sliced⟩ := kept
    exact ⟨f, hf, unbound, .inr ⟨owned, lead, sliced⟩⟩
  have known : Session.enlisted.runtime.Knows (.object 1) :=
    Option.isSome_iff_exists.mp (by decide +kernel :
      (Session.enlisted.runtime.heap.get? 1).isSome = true)
  rcases bound : (Activity.bindMethod (.object 0) (.object 1)).run Session.enlisted.runtime
    with ⟨made, rt₁⟩
  have place : ((Activity.bindMethod (.object 0) (.object 1)).run
      Session.enlisted.runtime).1.toOption = some (.object 3) := by decide +kernel
  rw [bound] at place
  cases made with
  | error e => simp [Except.toOption] at place
  | ok m =>
    obtain rfl : m = .object 3 := by simpa [Except.toOption] using place
    have live : rt₁.Knows (.object 3) := knows_of_function? (function?_bindMethod hf unbound bound)
    have same := Reachable.bound_call_eq_unbound_call reachable hf unbound takes known bound .refl
      live [.int 1] []
    exact ⟨f, rt₁, hf, unbound, takes, rfl, same.1⟩

end Runtime
end Callables
