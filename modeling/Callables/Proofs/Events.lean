import Callables.Proofs.Levels

namespace Callables

def EventKind.endsWith : EventKind → EventKind → Bool
  | .call, .ret => true
  | .nativeCall, .nativeReturn | .nativeCall, .nativeError => true
  | _, _ => false

/-- Sequences in which every start has its own end, of the same name, with whole pairs in
between. -/
inductive Bracketed : List Event → Prop
  | nil : Bracketed []
  | pair {start stop : EventKind} {inner rest : List Event} (name : String)
      (ends : start.endsWith stop = true) (body : Bracketed inner) (after : Bracketed rest) :
      Bracketed (⟨start, name⟩ :: inner ++ ⟨stop, name⟩ :: rest)

namespace Bracketed

theorem append {es es' : List Event} (h : Bracketed es) (h' : Bracketed es') :
    Bracketed (es ++ es') := by
  induction h with
  | nil => exact h'
  | pair name ends body _ _ ih =>
    rw [List.append_assoc, List.cons_append]
    exact .pair name ends body ih

theorem single {start stop : EventKind} {inner : List Event} (name : String)
    (ends : start.endsWith stop = true) (body : Bracketed inner) :
    Bracketed (⟨start, name⟩ :: inner ++ [⟨stop, name⟩]) :=
  .pair name ends body .nil

end Bracketed

structure Thread.Told (t t' : Thread) (events : List Event) : Prop where
  profiler : t.profiler.isSome = true
  log : t'.log.toList = t.log.toList ++ events

namespace Thread.Told

variable {t t' t'' : Thread} {es es' : List Event}

theorem nothing (h : t'.profiler.isSome = true) (profiler : t'.profiler = t.profiler)
    (log : t'.log = t.log) : Told t t' [] :=
  ⟨profiler ▸ h, by rw [log, List.append_nil]⟩

theorem trans (h : Told t t' es) (h' : Told t' t'' es') : Told t t'' (es ++ es') :=
  ⟨h.profiler, by rw [h'.log, h.log, List.append_assoc]⟩

/-- A profiler that is still there has been told the last event. -/
theorem of_emit {e : Event} (h : (t.emit e).profiler.isSome = true) : Told t (t.emit e) [e] := by
  unfold emit at h ⊢
  cases profiler : t.profiler with
  | none =>
    simp only [profiler] at h
    cases h
  | some p => exact ⟨by rw [profiler]; rfl, Array.toList_push⟩

end Thread.Told

namespace Entry

def startEvents (entry : Entry) : List Event :=
  if entry.flags.has .host then [] else [⟨.nativeCall, entry.name⟩]

def endEvents (entry : Entry) (ok : Bool) : List Event :=
  if entry.flags.has .host then []
  else [⟨if ok then .nativeReturn else .nativeError, entry.name⟩]

variable {entry : Entry} {t : Thread}

theorem told_opening (h : (entry.opening t).profiler.isSome = true) :
    t.Told (entry.opening t) entry.startEvents := by
  cases host : entry.flags.has .host with
  | true =>
    simp only [opening, startEvents, host, if_true] at h ⊢
    exact .nothing h rfl rfl
  | false =>
    simp only [opening, startEvents, host, Bool.false_eq_true, if_false] at h ⊢
    obtain ⟨profiler, log⟩ := Thread.Told.of_emit h
    exact ⟨profiler, log⟩

theorem told_closing {ok : Bool} (h : (entry.closing ok t).profiler.isSome = true) :
    t.Told (entry.closing ok t) (entry.endEvents ok) := by
  cases host : entry.flags.has .host with
  | true =>
    simp only [closing, endEvents, host, if_true] at h ⊢
    exact .nothing h rfl rfl
  | false =>
    simp only [closing, endEvents, host, Bool.false_eq_true, if_false] at h ⊢
    obtain ⟨profiler, log⟩ := Thread.Told.of_emit (t := t) h
    exact ⟨profiler, log⟩

theorem bracketed_around {inner : List Event} (h : Bracketed inner) (entry : Entry) (ok : Bool) :
    Bracketed (entry.startEvents ++ inner ++ entry.endEvents ok) := by
  unfold startEvents endEvents
  split
  · simpa using h
  · exact .single entry.name (by cases ok <;> rfl) h

theorem count_startEvents (entry : Entry) (name : String) :
    entry.startEvents.count ⟨.nativeCall, name⟩ =
      (!entry.flags.has .host && entry.name == name).toNat := by
  unfold startEvents
  cases entry.flags.has .host with
  | true => rfl
  | false => cases named : entry.name == name <;> simp_all

theorem count_endEvents (entry : Entry) (ok : Bool) (name : String) :
    (entry.endEvents ok).count ⟨.nativeCall, name⟩ = 0 := by
  unfold endEvents
  cases entry.flags.has .host <;> cases ok <;> simp

end Entry

def Attempt.isNative (name : String) (a : Attempt) : Bool :=
  a.entered && !a.entry.flags.has .host && a.entry.name == name

/-- What is told is well bracketed, and native entry points start in it as often as dispatches get
to them. -/
def eventGauge : Gauge where
  Reads as t t' := t'.profiler.isSome = true →
    ∃ events, t.Told t' events ∧ Bracketed events ∧
      ∀ name, events.count ⟨.nativeCall, name⟩ = as.countP (Attempt.isNative name)
  refl t h := ⟨[], .nothing h rfl rfl, .nil, fun _ => rfl⟩
  trans := by
    intro as bs t t' t'' first second h
    obtain ⟨es', told', bracketed', count'⟩ := second h
    obtain ⟨es, told, bracketed, count⟩ := first told'.profiler
    exact ⟨es ++ es', told.trans told', bracketed.append bracketed',
      fun name => by rw [List.count_append, List.countP_append, count, count']⟩
  refused t entry h := ⟨[], .nothing h rfl rfl, .nil, fun _ => rfl⟩
  limited t entry full h := by
    refine ⟨[], .nothing h rfl rfl, .nil, fun name => ?_⟩
    simp [Attempt.isNative, Attempt.entered, full]
  entered := by
    -- Read from the end: a profiler that is there after the last event was there before it.
    intro t t' as entry room inner _ ok h
    have last := Entry.told_closing h
    obtain ⟨events, told, bracketed, count⟩ := inner last.profiler
    refine ⟨entry.startEvents ++ events ++ entry.endEvents ok,
      ((Entry.told_opening told.profiler).trans told).trans last,
      Entry.bracketed_around bracketed entry ok, fun name => ?_⟩
    have native : Attempt.isNative name ⟨t, entry, true⟩ =
        (!entry.flags.has .host && entry.name == name) := by
      simp [Attempt.isNative, Attempt.entered, room]
    rw [List.count_append, List.count_append, count, Entry.count_startEvents,
      Entry.count_endEvents, List.countP_cons, native]
    cases !entry.flags.has .host && entry.name == name with
    | false => exact Nat.zero_add _
    | true => exact Nat.add_comm 1 _
  hosted := by
    intro t t' as host inner h
    have last := Thread.Told.of_emit h
    obtain ⟨events, told, bracketed, count⟩ := inner last.profiler
    refine ⟨[⟨.call, host⟩] ++ events ++ [⟨.ret, host⟩],
      ((Thread.Told.of_emit told.profiler).trans told).trans last, .single host rfl bracketed,
      fun name => ?_⟩
    rw [List.count_append, List.count_append, count]
    simp

namespace Dispatch

/-- What a dispatch reports. Nothing if it does not get to its entry point. Otherwise, as long as
the profiler stays, what dispatch itself reports of the entry stands around what is reported in the
entry point, and its end says whether that ended with a value. -/
structure Reports (d : Dispatch) : Prop where
  refused : ∀ e, d.delivery = .error e → d.run.2.thread.log = d.runtime.thread.log
  limited : ∀ delivery, d.delivery = .ok delivery → d.runtime.thread.hasRoom = false →
    d.run.2.thread.log = d.runtime.thread.log
  entered : ∀ delivery, d.delivery = .ok delivery → d.runtime.thread.hasRoom = true →
    d.run.2.thread.profiler.isSome = true →
    ∃ inner, d.opened.thread.Told (d.served delivery).2.thread inner ∧ Bracketed inner ∧
      d.runtime.thread.Told d.run.2.thread (d.function.entry.startEvents ++ inner ++
        d.function.entry.endEvents (d.served delivery).1.isOk)

theorem reports (d : Dispatch) : d.Reports where
  refused e handed := by rw [run_refused handed]
  limited delivery accepted full := by rw [run_limited accepted full]
  entered delivery accepted room := by
    rw [run_entered accepted room]
    intro h
    have last := Entry.told_closing h
    obtain ⟨inner, told, bracketed, -⟩ := (served_copies eventGauge delivery).2.1 last.profiler
    exact ⟨inner, told, bracketed, ((Entry.told_opening told.profiler).trans told).trans last⟩

end Dispatch

namespace Activity

theorem run_mapM_tuple (x : Option (List Value)) (rt : Runtime) :
    ∃ v rt', (x.mapM tuple).run rt = (.ok v, rt') ∧ rt'.thread = rt.thread := by
  cases x <;> exact ⟨_, _, rfl, rfl⟩

theorem run_mapM_dict (x : Option (Dict Value)) (rt : Runtime) :
    ∃ v rt', (x.mapM fun entries => allocate (.dict entries)).run rt = (.ok v, rt') ∧
      rt'.thread = rt.thread := by
  cases x <;> exact ⟨_, _, rfl, rfl⟩

/-- The body of a host-language function runs between its events, on the thread as it was. -/
theorem run_runHost_ok {rt : Runtime} {lead : Value} {view : ArgsView} {host : HostCall}
    (bound : rt.hostCall lead view = .ok host) (call : Callee) :
    ∃ frame rt', rt'.thread = rt.thread ∧ ((runHost call lead view).run rt).2.thread =
      ((reported .call (fun _ => .ret) host.name (evaluate call frame host.code.body)).run
        rt').2.thread := by
  obtain ⟨positional, rt₁, packed, same₁⟩ := run_mapM_tuple host.bound.positional rt
  obtain ⟨keywords, rt₂, packed', same₂⟩ := run_mapM_dict host.bound.keywords rt₁
  let frame : Frame := {
    function := host.function, code := host.code
    parameters := host.bound.parameters, positional, keywords }
  let body := reported .call (fun _ => .ret) host.name (evaluate call frame host.code.body)
  obtain ⟨move, held⟩ := run_holding (frame.held ++ host.snapshot) body rt₂
  refine ⟨frame, { rt₂ with ledger := rt₂.ledger.push (.take (frame.held ++ host.snapshot)) },
    same₂.trans same₁, ?_⟩
  unfold runHost
  rw [run_get, bound]
  dsimp only
  rw [run_bind, packed]
  dsimp only
  rw [run_bind, packed']
  exact congrArg (fun ran => ran.2.thread) held

end Activity

namespace Runtime

/-- What a host-language function reports. Nothing if its arguments do not fit. Otherwise, as long
as the profiler stays, its start and its end, under the name it had at the start. -/
structure ReportsHost (rt : Runtime) (lead : Value) (view : ArgsView) : Prop where
  unbound : ∀ e, rt.hostCall lead view = .error e →
    (Activity.runHost Activity.call lead view).run rt = (.error e, rt)
  bound : ∀ host, rt.hostCall lead view = .ok host →
    ((Activity.runHost Activity.call lead view).run rt).2.thread.profiler.isSome = true →
    ∃ inner, Bracketed inner ∧
      rt.thread.Told ((Activity.runHost Activity.call lead view).run rt).2.thread
        (⟨.call, host.name⟩ :: inner ++ [⟨.ret, host.name⟩])

theorem reportsHost (rt : Runtime) (lead : Value) (view : ArgsView) :
    rt.ReportsHost lead view where
  unbound e unbound := by
    unfold Activity.runHost
    rw [Activity.run_get, unbound]
    rfl
  bound host bound := by
    obtain ⟨frame, rt', same, ran⟩ := Activity.run_runHost_ok bound Activity.call
    rw [ran, Activity.run_reported, Activity.run_around, ← same]
    intro h
    have last := Thread.Told.of_emit h
    let opened := { rt' with thread := rt'.thread.emit ⟨.call, host.name⟩ }
    have calls : (eventGauge.beside opened.thread.level).Calls Activity.call
        Activity.recordedCall := Activity.calls_recordedCall
    have sees : (eventGauge.beside opened.thread.level).Sees (opened, opened) frame :=
      ⟨⟨rfl, rfl⟩, nofun⟩
    have body := Bond.joins_evaluate calls sees host.code.body nofun
    rw [Relocation.stay_frame, Relocation.stay_expr] at body
    obtain ⟨-, reads, -⟩ := Activity.copies_of_joins body
    obtain ⟨inner, told, bracketed, -⟩ := reads last.profiler
    exact ⟨inner, bracketed, ((Thread.Told.of_emit told.profiler).trans told).trans last⟩

/-- As long as the profiler stays, what is reported during a call is a properly nested sequence, in
which native entry points start as often as dispatches get to them; a dispatch that is stopped
before reports nothing, any other its own start and end if it is native, and a host-language
function its own if its arguments fit. -/
theorem events_bracketed :
    (∀ (rt : Runtime) (i : Invocation),
      Activity.Copies rt (i.run Activity.call) (i.run Activity.recordedCall) ∧
      (((i.run Activity.call).run rt).2.thread.profiler.isSome = true →
        ∃ events, rt.thread.Told ((i.run Activity.call).run rt).2.thread events ∧
          Bracketed events ∧
          ∀ name, events.count ⟨.nativeCall, name⟩ = rt.dispatches (Attempt.isNative name) i)) ∧
    (∀ d : Dispatch, d.Reports) ∧
    ∀ (rt : Runtime) (lead : Value) (view : ArgsView), rt.ReportsHost lead view := by
  refine ⟨fun rt i => ?_, Dispatch.reports, reportsHost⟩
  obtain ⟨copies, reads, -⟩ := rt.attempts_read eventGauge i
  exact ⟨copies, reads⟩

end Runtime

/-- A program with a native function that fails, a host-language function that calls what it is
given and answers how that ended, and a profiler. -/
def Session.profiled : Session :=
  (start .standard .empty).run [
    (.define "f" ⟨"f", .noArgs, .fail, .noArgs, none, false⟩, none),
    (.newBuiltinFunction "f" none none, some "f"),
    (.newCode ⟨"h", none, none, .ofNames ["p"], [], .attempt (.call (.parameter "p") [] [])⟩,
      some "code"),
    (.newHostFunction (.kept "code") (.dict []) none none, some "h"),
    (.profile none, none)]

theorem Runtime.profiled_events_bracketed :
    ((Invocation.run Activity.call (.call (.object 3) [.object 0] [])).run
        Session.profiled.runtime).2.thread.profiler.isSome = true ∧
      Bracketed [⟨.call, "h"⟩, ⟨.nativeCall, "f"⟩, ⟨.nativeError, "f"⟩, ⟨.ret, "h"⟩] ∧
      Session.profiled.runtime.dispatches (Attempt.isNative "f")
        (.call (.object 3) [.object 0] []) = 1 := by
  obtain ⟨stays, before, after⟩ :
      ((Invocation.run Activity.call (.call (.object 3) [.object 0] [])).run
        Session.profiled.runtime).2.thread.profiler.isSome = true ∧
      Session.profiled.runtime.thread.log.toList = [] ∧
      ((Invocation.run Activity.call (.call (.object 3) [.object 0] [])).run
        Session.profiled.runtime).2.thread.log.toList =
        [⟨.call, "h"⟩, ⟨.nativeCall, "f"⟩, ⟨.nativeError, "f"⟩, ⟨.ret, "h"⟩] := by
    decide +kernel
  obtain ⟨events, told, bracketed, counted⟩ := (events_bracketed.1 _ _).2 stays
  obtain rfl : _ = events := after.symm.trans (by simpa [before] using told.log)
  exact ⟨stays, bracketed, (counted "f").symm⟩

end Callables
