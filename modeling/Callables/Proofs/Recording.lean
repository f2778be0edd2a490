import Callables.Proofs.Dispatching
import Callables.Proofs.Receivers

namespace Callables

def Runtime.recorded (rt : Runtime) (record : List Attempt) : Runtime := { rt with record }

namespace Attempt

def refused (a : Attempt) : Bool := !a.accepted

def limited (a : Attempt) : Bool := a.accepted && !a.thread.hasRoom

def entered (a : Attempt) : Bool := a.accepted && a.thread.hasRoom

end Attempt

namespace Dispatch

def attempt (d : Dispatch) : Attempt where
  thread := d.runtime.thread
  entry := d.function.entry
  accepted := (d.runtime.deliver d.callable d.function d.args d.keywords).isOk

variable {d : Dispatch}

theorem attempt_refused {e : CallError}
    (refused : d.runtime.deliver d.callable d.function d.args d.keywords = .error e) :
    d.attempt = ⟨d.runtime.thread, d.function.entry, false⟩ := by
  unfold attempt
  rw [refused]
  rfl

theorem attempt_accepted {delivery : Delivery d.function.entry.convention}
    (accepted : d.runtime.deliver d.callable d.function d.args d.keywords = .ok delivery) :
    d.attempt = ⟨d.runtime.thread, d.function.entry, true⟩ := by
  unfold attempt
  rw [accepted]
  rfl

end Dispatch

namespace Activity

def recorded (dispatch : Dispatcher) : Dispatcher :=
  fun callable f args keywords => do
    modify fun rt =>
      rt.recorded (rt.record ++ [Dispatch.attempt ⟨rt, callable, f, args, keywords⟩])
    dispatch callable f args keywords

def recordedWithin : Nat → Callee
  | 0, callee, args, keywords => callWith (recorded (dispatchWith none)) args callee keywords
  | room + 1, callee, args, keywords =>
    callWith (recorded (dispatchWith (some (recordedWithin room)))) args callee keywords

def recordedCall : Callee := fun callee args keywords => do
  recordedWithin (← get).thread.room callee args keywords

def written {α : Type} (a : Activity α) (rt : Runtime) : List Attempt :=
  (a.run rt).2.record.drop rt.record.length

/-- From a state, a copy of an activity does the same but for what it writes down. -/
def Copies {α : Type} (rt : Runtime) (a copy : Activity α) : Prop :=
  copy.run rt = ((a.run rt).1, (a.run rt).2.recorded (rt.record ++ copy.written rt))

theorem run_recorded (d : Dispatcher) (rt : Runtime) (callable : Value) (f : Function)
    (args : List Value) (keywords : Keywords) :
    (recorded d callable f args keywords).run rt =
      (d callable f args keywords).run (rt.recorded
        (rt.record ++ [Dispatch.attempt ⟨rt, callable, f, args, keywords⟩])) := rfl

end Activity

def Runtime.attempts (rt : Runtime) (i : Invocation) : List Attempt :=
  (i.run Activity.recordedCall).written rt

def Runtime.dispatches (rt : Runtime) (which : Attempt → Bool) (i : Invocation) : Nat :=
  (rt.attempts i).countP which

/-- A relation between dispatches and the threads before and after, which adds up along a run and
fits every step of a call: a dispatch that is refused, that finds no level left or that gets to its
entry point, and the body of a host-language function. -/
structure Gauge where
  Reads : List Attempt → Thread → Thread → Prop
  refl : ∀ t, Reads [] t t
  trans : ∀ {as bs t t' t''}, Reads as t t' → Reads bs t' t'' → Reads (as ++ bs) t t''
  refused : ∀ t entry, Reads [⟨t, entry, false⟩] t { t with counts := t.counts.reject }
  limited : ∀ t entry, t.hasRoom = false → Reads [⟨t, entry, true⟩] t t
  entered : ∀ {t t' as} entry, t.hasRoom = true → Reads as (entry.opening t) t' →
    t'.level = (entry.opening t).level →
    ∀ ok, Reads (⟨t, entry, true⟩ :: as) t (entry.closing ok t')
  hosted : ∀ {t t' as} name, Reads as (t.emit ⟨.call, name⟩) t' →
    Reads as t (t'.emit ⟨.ret, name⟩)

namespace Gauge

def silent : Gauge where
  Reads _ _ _ := True
  refl _ := trivial
  trans _ _ := trivial
  refused _ _ := trivial
  limited _ _ _ := trivial
  entered _ _ _ _ _ := trivial
  hosted _ _ := trivial

variable (gauge : Gauge) (level : Thread.Level)

/-- The second of two runs may write down dispatches. The gauge reads them, and both stay on a
level. -/
def beside : CallBond .stay where
  Holds p := p.2 = p.1.recorded p.2.record ∧ p.1.thread.level = level
  Leads p q := ∃ as, q.2.record = p.2.record ++ as ∧ gauge.Reads as p.1.thread q.1.thread
  minds := False
  refl p := ⟨[], (List.append_nil _).symm, gauge.refl _⟩
  trans := by
    rintro p q r ⟨as, wrote, reads⟩ ⟨bs, wrote', reads'⟩
    exact ⟨as ++ bs, by rw [wrote', wrote, List.append_assoc], gauge.trans reads reads'⟩
  relocated := by
    rintro p ⟨same, -⟩
    rw [same]
    exact { Relocation.stay_relocated p.1 with }
  sound mind := mind.elim
  grows mind := mind.elim
  piece := by
    rintro ⟨rt, rt'⟩ piece ⟨same, on⟩ -
    obtain ⟨record, rfl⟩ : ∃ record, rt' = rt.recorded record := ⟨_, same⟩
    rw [piece.relocate_stay]
    have after : piece.after (rt.recorded record) = (piece.after rt).recorded record := by
      cases piece <;> rfl
    refine ⟨⟨?_, ?_⟩, [], ?_, ?_⟩
    · rw [after]
      rfl
    · exact (congrArg Thread.level piece.thread_after).trans on
    · rw [after]
      exact (List.append_nil _).symm
    · change gauge.Reads [] rt.thread (piece.after rt).thread
      rw [piece.thread_after]
      exact gauge.refl _
  opened := by
    rintro ⟨rt, rt'⟩ name ⟨same, on⟩
    exact ⟨congrArg (·.telling .call name) same, (Thread.level_emit ..).trans on⟩
  closed := by
    rintro ⟨rt, rt'⟩ ⟨after, after'⟩ name ⟨-, on⟩ ⟨as, wrote, reads⟩ ⟨same, on'⟩
    exact ⟨⟨congrArg (·.telling .ret name) same, (Thread.level_emit ..).trans on'⟩, as, wrote,
      gauge.hosted name reads⟩

end Gauge

def Runtime.unwritten : FreeBond .stay where
  Holds p := p.2 = p.1.recorded p.2.record
  Leads p q := q.1.record = p.1.record ∧ q.2.record = p.2.record
  minds := False
  refl _ := ⟨rfl, rfl⟩
  trans h h' := ⟨h'.1.trans h.1, h'.2.trans h.2⟩
  relocated := by
    intro p h
    rw [h]
    exact { Relocation.stay_relocated p.1 with }
  sound mind := mind.elim
  grows mind := mind.elim
  piece := by
    rintro ⟨rt, rt'⟩ piece h -
    obtain ⟨record, rfl⟩ : ∃ record, rt' = rt.recorded record := ⟨_, h⟩
    rw [piece.relocate_stay]
    cases piece <;> exact ⟨rfl, rfl, rfl⟩
  thread f h := ⟨congrArg (fun rt : Runtime => { rt with thread := f rt.thread }) h, rfl, rfl⟩

namespace Activity

variable {gauge : Gauge} {level : Thread.Level} {rt : Runtime}

/-- Beside a copy, an activity does the same but for what the copy writes down, which the gauge
reads. -/
theorem joins_beside_iff {a copy : Activity Value} {record : List Attempt} :
    (gauge.beside level).Joins Relocation.stay.value (gauge.beside level).Knows
        (rt, rt.recorded record) a copy ↔
      ∃ as, copy.run (rt.recorded record) = ((a.run rt).1, (a.run rt).2.recorded (record ++ as)) ∧
        gauge.Reads as rt.thread (a.run rt).2.thread ∧ (a.run rt).2.thread.level = level := by
  constructor
  · rintro ⟨result, ⟨⟨same, on⟩, as, wrote, reads⟩, -⟩
    refine ⟨as, Prod.ext (result.trans (Relocation.stay_result _)) ?_, reads, on⟩
    exact same.trans (congrArg (a.run rt).2.recorded wrote)
  · rintro ⟨as, same, reads, on⟩
    refine ⟨?_, ⟨⟨?_, on⟩, as, ?_, reads⟩, fun _ _ mind => mind.elim⟩
    · exact (congrArg Prod.fst same).trans (Relocation.stay_result _).symm
    · rw [same]
      rfl
    · rw [same]
      rfl

theorem run_around_recorded {before : Thread → Thread} {after : Bool → Thread → Thread}
    {body copy : Activity Value} {record record' : List Attempt}
    (h : copy.run ({ rt with thread := before rt.thread }.recorded record) =
      ((body.run { rt with thread := before rt.thread }).1,
        (body.run { rt with thread := before rt.thread }).2.recorded record')) :
    (around before after copy).run (rt.recorded record) =
      (((around before after body).run rt).1,
        ((around before after body).run rt).2.recorded record') := by
  have at' : { rt.recorded record with thread := before (rt.recorded record).thread } =
      { rt with thread := before rt.thread }.recorded record := rfl
  rw [run_around, run_around, at', h]
  rfl

section Dispatches

variable {call call' : Option Callee} (callable : Value) (f : Function) (args : List Value)
  (keywords : Keywords)

/-- A dispatch whose calls one level deeper go the same way as those of another. On the last level
no call gets to its entry point. -/
theorem dispatchWith_beside (record : List Attempt)
    (hc : rt.thread.hasRoom = true → ∃ c c', call = some c ∧ call' = some c' ∧
      (gauge.beside ⟨rt.thread.depth + 1, rt.thread.limit⟩).Calls c c') :
    let ran := (dispatchWith call callable f args keywords).run rt
    ∃ inner, (dispatchWith call' callable f args keywords).run (rt.recorded record) =
        (ran.1, ran.2.recorded (record ++ inner)) ∧
      gauge.Reads (Dispatch.attempt ⟨rt, callable, f, args, keywords⟩ :: inner) rt.thread
        ran.2.thread ∧
      ran.2.thread.level = rt.thread.level := by
  dsimp only
  cases handed : rt.deliver callable f args keywords with
  | error e =>
    have handed' : (rt.recorded record).deliver callable f args keywords = .error e := handed
    rw [Dispatch.attempt_refused (d := ⟨rt, callable, f, args, keywords⟩) handed,
      run_dispatchWith_refused handed, run_dispatchWith_refused handed']
    exact ⟨[], by rw [List.append_nil]; rfl, gauge.refused _ _, rfl⟩
  | ok delivery =>
    have handed' : (rt.recorded record).deliver callable f args keywords = .ok delivery := handed
    rw [Dispatch.attempt_accepted (d := ⟨rt, callable, f, args, keywords⟩) handed]
    cases room : rt.thread.hasRoom with
    | false =>
      rw [run_dispatchWith_limited handed room, run_dispatchWith_limited handed' room]
      exact ⟨[], by rw [List.append_nil]; rfl, gauge.limited _ _ room, rfl⟩
    | true =>
      obtain ⟨c, c', rfl, rfl, deeper⟩ := hc room
      let opened : Runtime := { rt with thread := f.entry.opening rt.thread }
      have known : (gauge.beside ⟨rt.thread.depth + 1, rt.thread.limit⟩).KnowsAll
          (opened, opened.recorded record) delivery.values := False.elim
      have native := CallBond.joins_runNative deeper ⟨rfl, Thread.level_opening ..⟩ f.entry.native
        known
      rw [Relocation.stay_delivery] at native
      obtain ⟨inner, same, reads, on⟩ := joins_beside_iff.mp native
      have kept := on.trans (Thread.level_opening f.entry rt.thread).symm
      rw [run_dispatchWith_entered handed room, run_dispatchWith_entered handed' room]
      exact ⟨inner, run_around_recorded same, gauge.entered f.entry room reads kept _,
        Thread.level_closing kept _⟩

end Dispatches

/-- Dispatches beside dispatches that are written down. -/
theorem dispatches_recorded {call call' : Option Callee}
    (hc : level.depth < level.limit.toNat → ∃ c c', call = some c ∧ call' = some c' ∧
      (gauge.beside ⟨level.depth + 1, level.limit⟩).Calls c c') :
    (gauge.beside level).Dispatches (dispatchWith call) (recorded (dispatchWith call')) := by
  rintro ⟨rt, _⟩ ⟨same, rfl⟩ callable f args keywords - - - -
  obtain ⟨record, rfl⟩ : ∃ record, _ = rt.recorded record := ⟨_, same⟩
  rw [Relocation.stay_value, Relocation.stay_function, Relocation.stay_values,
    Relocation.stay_keywords]
  obtain ⟨inner, same, reads, on⟩ := dispatchWith_beside callable f args keywords
    (record ++ [Dispatch.attempt ⟨rt, callable, f, args, keywords⟩]) fun room =>
      hc (of_decide_eq_true room)
  refine joins_beside_iff.mpr ⟨_ :: inner, ?_, reads, on⟩
  rw [List.append_assoc] at same
  exact (run_recorded ..).trans same

theorem dispatches_silent {call call' : Option Callee}
    (hc : level.depth < level.limit.toNat → ∃ c c', call = some c ∧ call' = some c' ∧
      (Gauge.silent.beside ⟨level.depth + 1, level.limit⟩).Calls c c') :
    (Gauge.silent.beside level).Dispatches (dispatchWith call) (dispatchWith call') := by
  rintro ⟨rt, _⟩ ⟨same, rfl⟩ callable f args keywords - - - -
  obtain ⟨record, rfl⟩ : ∃ record, _ = rt.recorded record := ⟨_, same⟩
  rw [Relocation.stay_value, Relocation.stay_function, Relocation.stay_values,
    Relocation.stay_keywords]
  obtain ⟨inner, same, -, on⟩ := dispatchWith_beside callable f args keywords record fun room =>
    hc (of_decide_eq_true room)
  exact joins_beside_iff.mpr ⟨inner, same, trivial, on⟩

/-- Within as many levels as there are, calls go beside calls that are written down. -/
theorem calls_recordedWithin (room : Nat) (level : Thread.Level)
    (fits : level.limit.toNat - level.depth = room) :
    (gauge.beside level).Calls (callWithin room) (recordedWithin room) := by
  induction room generalizing level with
  | zero => exact (dispatches_recorded fun room => by omega).calls
  | succ room ih =>
    have deeper := ih ⟨level.depth + 1, level.limit⟩ (by dsimp only; omega)
    exact (dispatches_recorded fun _ => ⟨_, _, rfl, rfl, deeper⟩).calls

theorem calls_recordedCall : (gauge.beside level).Calls call recordedCall := by
  rintro ⟨rt, _⟩ ⟨same, rfl⟩ callee args keywords known ha hk
  obtain ⟨record, rfl⟩ : ∃ record, _ = rt.recorded record := ⟨_, same⟩
  apply Bond.Joins.get
  exact calls_recordedWithin rt.thread.room _ rfl _ ⟨rfl, rfl⟩ callee args keywords known ha hk

/-- Within as many levels as there are, calls go beside themselves. -/
theorem calls_within (room : Nat) (level : Thread.Level)
    (fits : level.limit.toNat - level.depth = room) :
    (Gauge.silent.beside level).Calls (callWithin room) call := by
  have same : (Gauge.silent.beside level).Calls (callWithin room) (callWithin room) := by
    induction room generalizing level with
    | zero => exact (dispatches_silent fun room => by omega).calls
    | succ room ih =>
      have deeper := ih ⟨level.depth + 1, level.limit⟩ (by dsimp only; omega)
      exact (dispatches_silent fun _ => ⟨_, _, rfl, rfl, deeper⟩).calls
  rintro ⟨rt, _⟩ ⟨eq, on⟩ callee args keywords known ha hk
  obtain ⟨record, rfl⟩ : ∃ record, _ = rt.recorded record := ⟨_, eq⟩
  obtain rfl : rt.thread.room = room := by
    rw [← fits, ← on]
    rfl
  exact (same _ ⟨rfl, on⟩ callee args keywords known ha hk).of_run_eq rfl rfl

/-- Calls that do not write anything down themselves. -/
theorem record_of_calls {c : Callee} (hc : Runtime.unwritten.Calls c c) (rt : Runtime)
    (i : Invocation) : ((i.run c).run rt).2.record = rt.record :=
  (Bond.joins_invocation (p := (rt, rt)) hc rfl i nofun).later.leads.1

theorem copies_of_joins {a copy : Activity Value}
    (h : (gauge.beside rt.thread.level).Joins Relocation.stay.value
      (gauge.beside rt.thread.level).Knows (rt, rt) a copy) :
    Copies rt a copy ∧ gauge.Reads (copy.written rt) rt.thread (a.run rt).2.thread ∧
      (a.run rt).2.thread.level = rt.thread.level := by
  have h : (gauge.beside rt.thread.level).Joins _ _ (rt, rt.recorded rt.record) a copy := h
  obtain ⟨as, same, reads, on⟩ := joins_beside_iff.mp h
  have ran : copy.run rt = _ := same
  have wrote : copy.written rt = as := by
    rw [written, ran]
    exact List.drop_left
  rw [Copies, wrote]
  exact ⟨ran, reads, on⟩

/-- What two ways of calling do to the thread, the second of which may write dispatches down. -/
theorem copies_of_calls {c c' : Callee} (hc : (gauge.beside rt.thread.level).Calls c c')
    (i : Invocation) :
    Copies rt (i.run c) (i.run c') ∧
      gauge.Reads ((i.run c').written rt) rt.thread ((i.run c).run rt).2.thread ∧
      ((i.run c).run rt).2.thread.level = rt.thread.level :=
  copies_of_joins (Bond.joins_invocation hc ⟨rfl, rfl⟩ i nofun)

/-- A call is the dispatch of a function that calls in the same way: the room that `call` begins
with never runs out before the levels do. -/
theorem call_eq (callee : Value) (args : List Value) (keywords : Keywords) :
    call callee args keywords = callWith (dispatchWith (some call)) args callee keywords := by
  funext rt
  have within : ∃ deep, (call callee args keywords).run rt =
      (callWith (dispatchWith deep) args callee keywords).run rt ∧
      (Gauge.silent.beside rt.thread.level).Dispatches (dispatchWith deep)
        (dispatchWith (some call)) := by
    have room_eq : rt.thread.room = rt.thread.level.limit.toNat - rt.thread.level.depth := rfl
    unfold call
    rw [run_get]
    -- On the last level there is no deeper call, but no dispatch gets to its entry point either.
    cases room : rt.thread.room with
    | zero => exact ⟨none, rfl, dispatches_silent fun _ => by omega⟩
    | succ r =>
      have deeper := calls_within r ⟨rt.thread.level.depth + 1, rt.thread.level.limit⟩
        (by dsimp only; omega)
      exact ⟨some (callWithin r), rfl, dispatches_silent fun _ => ⟨_, _, rfl, rfl, deeper⟩⟩
  obtain ⟨deep, plain, dispatches⟩ := within
  have kept := record_of_calls (FreeBond.dispatches_dispatchWith
    (.some Runtime.unwritten.calls_call)).calls rt (.call callee args keywords)
  have left := record_of_calls Runtime.unwritten.calls_call rt (.call callee args keywords)
  obtain ⟨same, -⟩ := copies_of_calls dispatches.calls (.call callee args keywords)
  dsimp only [Invocation.run] at kept left same
  rw [Copies, ← plain] at same
  have none : (callWith (dispatchWith (some call)) args callee keywords).written rt = [] := by
    rw [written, kept, List.drop_length]
  rw [none, List.append_nil, ← left] at same
  exact same.symm

end Activity

theorem Runtime.attempts_read (gauge : Gauge) (rt : Runtime) (i : Invocation) :
    Activity.Copies rt (i.run Activity.call) (i.run Activity.recordedCall) ∧
      gauge.Reads (rt.attempts i) rt.thread ((i.run Activity.call).run rt).2.thread ∧
      ((i.run Activity.call).run rt).2.thread.level = rt.thread.level :=
  Activity.copies_of_calls Activity.calls_recordedCall i

end Callables
