import Callables.Proofs.Chains
import Callables.Proofs.Packing
import Callables.Proofs.Events

namespace Callables

namespace Thread

def descend (levels : Nat) (t : Thread) : Thread := Entry.boundMethod.opening^[levels] t

def ascend (levels : Nat) (ok : Bool) (t : Thread) : Thread :=
  (Entry.boundMethod.closing ok)^[levels] t

theorem descend_succ (levels : Nat) (t : Thread) :
    t.descend (levels + 1) = (Entry.boundMethod.opening t).descend levels := rfl

theorem ascend_succ (levels : Nat) (ok : Bool) (t : Thread) :
    t.ascend (levels + 1) ok = Entry.boundMethod.closing ok (t.ascend levels ok) :=
  Function.iterate_succ_apply' ..

theorem level_descend (levels : Nat) (t : Thread) :
    (t.descend levels).level = ⟨t.depth + levels, t.limit⟩ := by
  induction levels generalizing t with
  | zero => rfl
  | succ levels ih =>
    obtain ⟨depth, limit⟩ := Level.mk.inj (level_opening Entry.boundMethod t)
    rw [descend_succ, ih, depth, limit, Nat.add_assoc, Nat.add_comm 1]

theorem counts_emit (t : Thread) (e : Event) : (t.emit e).counts = t.counts := by
  unfold emit
  split <;> rfl

theorem counts_opening (entry : Entry) (t : Thread) :
    (entry.opening t).counts = t.counts.record entry.convention := by
  unfold Entry.opening
  dsimp only
  split
  · rfl
  · rw [counts_emit]

theorem counts_closing (entry : Entry) (ok : Bool) (t : Thread) :
    (entry.closing ok t).counts = t.counts := by
  unfold Entry.closing
  dsimp only [leave]
  split
  · rfl
  · rw [counts_emit]

/-- Every wrapper counts as one dispatch by array and keywords. -/
theorem counts_descend (levels : Nat) (t : Thread) :
    (t.descend levels).counts =
      { t.counts with fastKeywords := t.counts.fastKeywords + levels } := by
  induction levels generalizing t with
  | zero => rfl
  | succ levels ih =>
    rw [descend_succ, ih, counts_opening, Nat.add_comm levels, ← Nat.add_assoc]
    rfl

theorem counts_ascend (levels : Nat) (ok : Bool) (t : Thread) :
    (t.ascend levels ok).counts = t.counts := by
  induction levels with
  | zero => rfl
  | succ levels ih => rw [ascend_succ, counts_closing, ih]

/-- A profiler that is still there has been told of the start of every wrapper. -/
theorem told_descend {levels : Nat} {t : Thread}
    (h : (t.descend levels).profiler.isSome = true) :
    t.Told (t.descend levels)
      (List.replicate levels ⟨.nativeCall, Entry.boundMethod.name⟩) := by
  induction levels generalizing t with
  | zero => exact .nothing h rfl rfl
  | succ levels ih =>
    have rest := ih (t := Entry.boundMethod.opening t) h
    exact (Entry.told_opening rest.profiler).trans rest

/-- A profiler that is still there has been told of the end of every wrapper. -/
theorem told_ascend {levels : Nat} {ok : Bool} {t : Thread}
    (h : (t.ascend levels ok).profiler.isSome = true) :
    t.Told (t.ascend levels ok)
      (List.replicate levels
        ⟨if ok then .nativeReturn else .nativeError, Entry.boundMethod.name⟩) := by
  induction levels with
  | zero => exact .nothing h rfl rfl
  | succ levels ih =>
    rw [ascend_succ] at h ⊢
    have last := Entry.told_closing h
    rw [List.replicate_succ']
    exact (ih last.profiler).trans last

end Thread

namespace Activity

variable {rt : Runtime} {callable : Value} {link : Link} {w : Function}

/-- The entry point of a wrapper calls what is wrapped, with the receiver in front. -/
theorem runBound_of_wraps (rt : Runtime) (wraps : rt.heap.Wraps callable link w) (call : Callee)
    (view : ArgsView) :
    (runBound call link.wrapper view).run rt =
      (call callable (link.receiver :: view.positional) view.keywords).run rt := by
  unfold runBound
  rw [run_get]
  simp only [wraps.found, Option.bind_some, wraps.wrapped, wraps.receiver]

/-- What the entry point of a wrapper is handed, whatever the call. -/
theorem deliver_boundMethod (rt : Runtime) (callable receiver : Value) (module : Option Value)
    (watchers : List Int) (kind : FunctionKind) (args : List Value) (keywords : Keywords) :
    rt.deliver callable ⟨.boundMethod, some receiver, module, none, watchers, kind⟩ args keywords =
      .ok (.fastKeywords callable (.ofCall args keywords)) := by
  have passes : Entry.boundMethod.flags.has .passFunction = true := by decide
  have made : Delivery.make Entry.boundMethod.name callable args keywords .fastKeywords =
      .ok (.fastKeywords callable (.ofCall args keywords)) := by
    simp [Delivery.make, Convention.acceptsKeywords]
  have checked : rt.checkReceiver ⟨.boundMethod, some receiver, module, none, watchers, kind⟩
      args = .ok () := rfl
  rw [Runtime.deliver_eq, checked, Runtime.leadingArgument_of_passes passes, Runtime.accept_eq]
  dsimp only
  rw [Entry.validate_boundMethod]
  exact made

/-- A call of a wrapper that calls what it wraps is the call of that one level deeper. -/
theorem call_of_wraps (wraps : rt.heap.Wraps callable link w)
    (builtin : Types.initial.Grows rt.types) (entry : w.entry = .boundMethod)
    (unowned : w.owner = none) (room : rt.thread.hasRoom = true) (args : List Value)
    (keywords : Keywords) :
    (call link.wrapper args keywords).run rt =
      (around Entry.boundMethod.opening Entry.boundMethod.closing
        (call callable (link.receiver :: args) keywords)).run rt := by
  have passed := runBound_of_wraps { rt with thread := Entry.boundMethod.opening rt.thread } wraps
    call (.ofCall args keywords)
  rw [ArgsView.positional_ofCall, ArgsView.keywords_ofCall] at passed
  have function := Runtime.baseFunction?_of_builtin builtin wraps.found
  have bound := wraps.receiver
  obtain ⟨_, _, module, _, watchers, kind⟩ := w
  dsimp only at entry unowned bound
  subst entry unowned bound
  have accepted := deliver_boundMethod rt link.wrapper link.receiver module watchers kind args
    keywords
  rw [call_eq, run_callWith function, run_dispatchWith_entered accepted room, run_around,
    run_around]
  dsimp only [runNative, Entry.boundMethod] at passed ⊢
  rw [passed]

end Activity

/-- No wrapper of a chain around a value that is no function, or a bound one, stands for a function:
each calls what it wraps. -/
theorem Heap.HasChain.calls {h : Heap} {g : Value} {link : Link} {rest : List Link}
    (chain : h.HasChain g (link :: rest))
    (bound : ∀ f, h.function? g = some f → f.isBound = true) :
    ∃ w, h.Wraps (Link.top g rest) link w ∧ w.entry = .boundMethod ∧ w.owner = none := by
  obtain ⟨⟨w, wraps⟩, inner⟩ := chain
  refine ⟨w, wraps, wraps.calls.resolve_right ?_⟩
  rintro ⟨f, hf, unbound⟩
  cases rest with
  | nil =>
    have := bound f hf
    simp [Function.isBound, unbound] at this
  | cons below _ =>
    -- what is wrapped here is itself a wrapper, and so has a receiver
    obtain ⟨w', wraps'⟩ := inner.1
    obtain rfl := Option.some.inj (wraps'.found.symm.trans hf)
    have := wraps'.receiver
    simp [unbound] at this

theorem Heap.HasChain.of_suffix {h : Heap} {g : Value} {links part : List Link}
    (chain : h.HasChain g links) (suffix : part <:+ links) : h.HasChain g part := by
  induction links with
  | nil => exact List.suffix_nil.mp suffix ▸ trivial
  | cons link rest ih =>
    rcases List.suffix_cons_iff.mp suffix with rfl | below
    · exact chain
    · exact ih chain.2 below

namespace Runtime

variable {rt : Runtime} {g : Value} {links : List Link}

def descended (rt : Runtime) (levels : Nat) : Runtime :=
  { rt with thread := rt.thread.descend levels }

def ascended (rt : Runtime) (levels : Nat) (ok : Bool) : Runtime :=
  { rt with thread := rt.thread.ascend levels ok }

/-- The run of a chain, by induction on its links: every wrapper opens one level around the call of
the rest. -/
theorem run_call_chain (chain : rt.heap.HasChain g links)
    (bound : ∀ f, rt.heap.function? g = some f → f.isBound = true)
    (builtin : Types.initial.Grows rt.types)
    (room : rt.thread.depth + links.length ≤ rt.thread.limit.toNat) (args : List Value)
    (keywords : Keywords) :
    (Activity.call (Link.top g links) args keywords).run rt =
      (let ran := (Activity.call g (Link.receivers links ++ args) keywords).run
        (rt.descended links.length)
       (ran.1, ran.2.ascended links.length ran.1.isOk)) := by
  induction links generalizing rt args with
  | nil => rfl
  | cons link rest ih =>
    obtain ⟨w, wraps, entry, unowned⟩ := chain.calls bound
    rw [List.length_cons] at room ⊢
    have left : rt.thread.hasRoom = true := decide_eq_true (by omega)
    have below : (Entry.boundMethod.opening rt.thread).depth + rest.length ≤
        (Entry.boundMethod.opening rt.thread).limit.toNat := by
      obtain ⟨depth, limit⟩ := Thread.Level.mk.inj
        (Thread.level_opening Entry.boundMethod rt.thread)
      rw [depth, limit]
      omega
    have inner := @ih { rt with thread := Entry.boundMethod.opening rt.thread } chain.2
      bound builtin below (link.receiver :: args)
    rw [Link.top, Activity.call_of_wraps wraps builtin entry unowned left, Activity.run_around,
      inner, Link.receivers_cons, List.append_assoc, List.singleton_append]
    simp only [ascended, Thread.ascend_succ, descended, Thread.descend_succ]

/-- What the call of a chain of wrappers around `g` does. -/
structure Forwards (rt : Runtime) (g : Value) (links : List Link) (args : List Value)
    (keywords : Keywords) : Prop where
  /-- It calls `g` with all receivers in front, the first bound first, and ends as that does. -/
  run : (Activity.call (Link.top g links) args keywords).run rt =
    (let ran := (Activity.call g (Link.receivers links ++ args) keywords).run
      (rt.descended links.length)
     (ran.1, ran.2.ascended links.length ran.1.isOk))
  /-- That call begins one level deeper for every wrapper. -/
  deeper : (rt.descended links.length).thread.level =
    ⟨rt.thread.depth + links.length, rt.thread.limit⟩
  /-- Besides what that call counts, there is one dispatch for every wrapper. -/
  counted : (rt.descended links.length).thread.counts =
      { rt.thread.counts with
        fastKeywords := rt.thread.counts.fastKeywords + links.length } ∧
    ((Activity.call (Link.top g links) args keywords).run rt).2.thread.counts =
      ((Activity.call g (Link.receivers links ++ args) keywords).run
        (rt.descended links.length)).2.thread.counts
  /-- As long as the profiler stays, it is told of that call between the starts and the ends of the
  wrappers. -/
  told : ((Activity.call (Link.top g links) args keywords).run rt).2.thread.profiler.isSome = true →
    ∃ events, Bracketed events ∧
      (rt.descended links.length).thread.Told ((Activity.call g (Link.receivers links ++ args)
        keywords).run (rt.descended links.length)).2.thread events ∧
      rt.thread.Told ((Activity.call (Link.top g links) args keywords).run rt).2.thread
        (List.replicate links.length ⟨.nativeCall, "method"⟩ ++ events ++
          List.replicate links.length
            ⟨if ((Activity.call (Link.top g links) args keywords).run rt).1.isOk then .nativeReturn
              else .nativeError, "method"⟩)
  /-- No entry point of a wrapper is without a receiver and something to call. -/
  passes : ∀ link rest, link :: rest <:+ links → ∀ (thread : Thread) (call : Callee)
    (view : ArgsView),
    (Activity.runBound call link.wrapper view).run { rt with thread } =
      (call (Link.top g rest) (link.receiver :: view.positional) view.keywords).run
        { rt with thread }
  /-- A bound function is still called with its own receiver, either itself or as the leading
  argument, and with all receivers of the chain among the arguments. -/
  leads : ∀ f receiver, rt.baseFunction? g = some f → f.receiver = some receiver →
    (rt.descended links.length).heap.function? g = some f ∧
      (rt.descended links.length).deliver g f (Link.receivers links ++ args) keywords =
        f.entry.accept (if f.entry.flags.has .passFunction then g else receiver)
          (Link.receivers links ++ args) keywords

/-- A chain of wrappers calls what is at its end, with the receivers in front in the order in
which they were bound. The value at the end is a closure, any other value that is no function, or
a function that is bound already; there is room for all wrappers. -/
theorem Chain.call_forwards (h : Chain g rt links)
    (bound : ∀ f, rt.baseFunction? g = some f → f.isBound = true)
    (room : rt.thread.depth + links.length ≤ rt.thread.limit.toNat) (args : List Value)
    (keywords : Keywords) : rt.Forwards g links args keywords := by
  obtain ⟨reachable, -, chain⟩ := h.present
  have sound := reachable.sound
  have ran := run_call_chain chain (fun f hf => bound f (sound.baseFunction?_eq hf)) sound.builtin
    room args keywords
  refine ⟨ran, Thread.level_descend .., ⟨Thread.counts_descend .., ?_⟩, ?_, ?_, ?_⟩
  · rw [ran]
    exact Thread.counts_ascend ..
  · rw [ran]
    intro stays
    have last := Thread.told_ascend stays
    obtain ⟨-, reads, -⟩ := (rt.descended links.length).attempts_read eventGauge
      (.call g (Link.receivers links ++ args) keywords)
    obtain ⟨events, told, bracketed, -⟩ := reads last.profiler
    exact ⟨events, bracketed, told, ((Thread.told_descend told.profiler).trans told).trans last⟩
  · intro link rest part thread call view
    obtain ⟨⟨w, wraps⟩, -⟩ := chain.of_suffix part
    exact Activity.runBound_of_wraps { rt with thread } wraps call view
  · intro f receiver hf own
    refine ⟨function?_of_baseFunction? hf, ?_⟩
    have checked : (rt.descended links.length).checkReceiver f (Link.receivers links ++ args) =
        .ok () := by
      unfold checkReceiver
      rw [own]
      cases f.owner <;> rfl
    rw [deliver_eq, checked]
    cases passes : f.entry.flags.has .passFunction with
    | true => rw [leadingArgument_of_passes passes, if_pos rfl]
    | false => rw [leadingArgument_of_receiver passes own, if_neg Bool.false_ne_true]

/-- The bound method of the sample session, bound to its object again and then to a number. -/
def rebound : Runtime :=
  ((Activity.bindMethod (.object 3) (.int 5)).run
    ((Activity.bindMethod (.object 2) (.object 1)).run Session.enlisted.runtime).2).2

theorem rebound_chain :
    Chain (.object 2) rebound [⟨.int 5, .object 4⟩, ⟨.object 1, .object 3⟩] := by
  have base : Chain (.object 2) Session.enlisted.runtime [] :=
    .start (.of_session Session.enlisted_reachable) ((knows_object_iff _).mpr (by decide +kernel))
  have first := base.bind_ok (.object 1) (.object 3)
    ((knows_object_iff _).mpr (by decide +kernel)) (by decide +kernel)
  exact first.bind_ok (.int 5) (.object 4) trivial (by decide +kernel)

theorem rebound_call_forwards :
    rebound.Forwards (.object 2) [⟨.int 5, .object 4⟩, ⟨.object 1, .object 3⟩] [.int 7] [] ∧
      ((Activity.call (.object 4) [.int 7] []).run rebound).1.toOption.bind
        ((Activity.call (.object 4) [.int 7] []).run rebound).2.heap.tuple? =
          some [.object 1, .object 1, .int 5, .int 7] := by
  have bound : (rebound.baseFunction? (.object 2)).all Function.isBound = true := by
    decide +kernel
  have room : rebound.thread.depth + 2 ≤ rebound.thread.limit.toNat := by decide +kernel
  have forwards := rebound_chain.call_forwards ((Option.all_eq_true ..).mp bound) room [.int 7] []
  exact ⟨forwards, by decide +kernel⟩

end Runtime
end Callables
