import Callables.Proofs.Steps

namespace Callables

def Dispatch.run (d : Dispatch) : Except CallError Value × Runtime :=
  (Activity.dispatchWith (some Activity.call) d.callable d.function d.args d.keywords).run d.runtime

def Dispatch.delivery (d : Dispatch) : Except CallError (Delivery d.function.entry.convention) :=
  d.runtime.deliver d.callable d.function d.args d.keywords

def Dispatch.opened (d : Dispatch) : Runtime :=
  { d.runtime with thread := d.function.entry.opening d.runtime.thread }

def Dispatch.served (d : Dispatch) (delivery : Delivery d.function.entry.convention) :
    Except CallError Value × Runtime :=
  (Activity.runNative Activity.call d.function.entry.native delivery).run d.opened

def Dispatch.within (d : Dispatch) (delivery : Delivery d.function.entry.convention) :
    List Attempt :=
  (Activity.runNative Activity.recordedCall d.function.entry.native delivery).written d.opened

namespace Dispatch

variable {d : Dispatch}

theorem run_refused {e : CallError} (refused : d.delivery = .error e) :
    d.run = (.error e,
      { d.runtime with
        thread := { d.runtime.thread with counts := d.runtime.thread.counts.reject } }) :=
  Activity.run_dispatchWith_refused refused _

theorem run_limited {delivery : Delivery d.function.entry.convention}
    (accepted : d.delivery = .ok delivery) (full : d.runtime.thread.hasRoom = false) :
    d.run = (.error (.recursionLimit d.function.entry.name d.runtime.thread.limit), d.runtime) :=
  Activity.run_dispatchWith_limited accepted full _

theorem run_entered {delivery : Delivery d.function.entry.convention}
    (accepted : d.delivery = .ok delivery) (room : d.runtime.thread.hasRoom = true) :
    d.run = ((d.served delivery).1,
      { (d.served delivery).2 with
        thread := d.function.entry.closing (d.served delivery).1.isOk
          (d.served delivery).2.thread }) :=
  Activity.run_dispatchWith_entered accepted room _

/-- An entry point goes the same way when the dispatches in it are written down. It does with the
thread what a gauge reads of them, and it ends on the level on which it began. -/
theorem served_copies (gauge : Gauge) (delivery : Delivery d.function.entry.convention) :
    Activity.Copies d.opened (Activity.runNative Activity.call d.function.entry.native delivery)
        (Activity.runNative Activity.recordedCall d.function.entry.native delivery) ∧
      gauge.Reads (d.within delivery) d.opened.thread (d.served delivery).2.thread ∧
      (d.served delivery).2.thread.level = d.opened.thread.level := by
  have calls : (gauge.beside d.opened.thread.level).Calls Activity.call Activity.recordedCall :=
    Activity.calls_recordedCall
  have holds : (gauge.beside d.opened.thread.level).Holds (d.opened, d.opened) := ⟨rfl, rfl⟩
  have known : (gauge.beside d.opened.thread.level).KnowsAll (d.opened, d.opened)
      delivery.values := nofun
  have native := CallBond.joins_runNative calls holds d.function.entry.native known
  rw [Relocation.stay_delivery] at native
  exact Activity.copies_of_joins native

/-- What a dispatch does with the depth. A call that is refused, or that finds no level left, leaves
all as it was, apart from the count of refusals. Any other begins below the limit; its entry point
begins one level deeper and ends there, and the level is left again. -/
structure Levelled (d : Dispatch) : Prop where
  refused : ∀ e, d.delivery = .error e →
    d.run = (.error e, { d.runtime with
      thread := { d.runtime.thread with counts := d.runtime.thread.counts.reject } })
  limited : ∀ delivery, d.delivery = .ok delivery →
    d.runtime.thread.limit.toNat ≤ d.runtime.thread.depth →
    d.run = (.error (.recursionLimit d.function.entry.name d.runtime.thread.limit), d.runtime)
  entered : ∀ delivery, d.delivery = .ok delivery →
    d.runtime.thread.depth < d.runtime.thread.limit.toNat →
    d.opened.thread.depth = d.runtime.thread.depth + 1 ∧
      d.runtime.thread.depth + 1 < UInt32.size ∧
      (d.served delivery).2.thread.depth = d.runtime.thread.depth + 1 ∧
      d.run.1 = (d.served delivery).1 ∧ d.run.2.thread.depth = d.runtime.thread.depth

theorem levelled (d : Dispatch) : d.Levelled where
  refused e he := run_refused he
  limited delivery accepted full := by
    refine run_limited accepted (decide_eq_false ?_)
    omega
  entered delivery accepted room := by
    have opened : d.opened.thread.level = ⟨d.runtime.thread.depth + 1, d.runtime.thread.limit⟩ :=
      Thread.level_opening _ _
    obtain ⟨-, -, kept⟩ := served_copies .silent delivery
    have small := d.runtime.thread.limit.toNat_lt_size
    have ran := run_entered accepted (decide_eq_true room)
    refine ⟨congrArg Thread.Level.depth opened, by omega,
      congrArg Thread.Level.depth (kept.trans opened), by rw [ran], ?_⟩
    rw [ran]
    exact congrArg Thread.Level.depth (Thread.level_closing kept _)

end Dispatch

/-- The depth that a dispatch gets to: that which its entry point observes, or, if it does not get
there, that on which it begins. -/
def Attempt.reach (a : Attempt) : Nat := if a.entered then a.thread.depth + 1 else a.thread.depth

def Attempt.isBeyond (depth : Nat) (limit : UInt32) (a : Attempt) : Bool :=
  a.thread.limit != limit || decide (depth < a.reach)

theorem Attempt.isBeyond_eq_false {depth : Nat} {limit : UInt32} {a : Attempt}
    (under : a.thread.limit = limit) (reach : a.reach ≤ depth) :
    a.isBeyond depth limit = false := by
  unfold isBeyond
  rw [under, decide_eq_false (Nat.not_lt_of_le reach)]
  simp

/-- No dispatch is beyond a bound that is not below the limit, if none is at the start. -/
def boundGauge (depth : Nat) (limit : UInt32) (h : limit.toNat ≤ depth) : Gauge where
  Reads as t t' := t'.level = t.level ∧
    (t.limit = limit → t.depth ≤ depth → ∀ a ∈ as, a.isBeyond depth limit = false)
  refl _ := ⟨rfl, fun _ _ => nofun⟩
  trans := by
    rintro as bs t t' t'' ⟨same, first⟩ ⟨same', second⟩
    obtain ⟨depth_eq, limit_eq⟩ := Thread.Level.mk.inj same
    refine ⟨same'.trans same, fun hl hd a ha => ?_⟩
    rcases List.mem_append.mp ha with ha | ha
    · exact first hl hd a ha
    · exact second (limit_eq.trans hl) (Nat.le_trans (Nat.le_of_eq depth_eq) hd) a ha
  refused t entry := by
    refine ⟨rfl, fun hl hd => ?_⟩
    have level : Attempt.reach ⟨t, entry, false⟩ = t.depth := by
      simp [Attempt.reach, Attempt.entered]
    exact List.forall_mem_singleton.mpr (Attempt.isBeyond_eq_false hl (level ▸ hd))
  limited t entry full := by
    refine ⟨rfl, fun hl hd => ?_⟩
    have level : Attempt.reach ⟨t, entry, true⟩ = t.depth := by
      simp [Attempt.reach, Attempt.entered, full]
    exact List.forall_mem_singleton.mpr (Attempt.isBeyond_eq_false hl (level ▸ hd))
  entered := by
    rintro t t' as entry room ⟨same, inner⟩ kept ok
    refine ⟨Thread.level_closing kept ok, fun hl hd => ?_⟩
    obtain ⟨depth_eq, limit_eq⟩ := Thread.Level.mk.inj (Thread.level_opening entry t)
    have below : t.depth < t.limit.toNat := of_decide_eq_true room
    rw [hl] at below
    -- The entry point begins one level deeper, which is still not beyond the limit.
    refine List.forall_mem_cons.mpr ⟨?_, inner (limit_eq.trans hl) (by omega)⟩
    have deeper : Attempt.reach ⟨t, entry, true⟩ = t.depth + 1 := by
      simp [Attempt.reach, Attempt.entered, room]
    exact Attempt.isBeyond_eq_false hl (by omega)
  hosted := by
    rintro t t' as name ⟨same, inner⟩
    obtain ⟨depth_eq, limit_eq⟩ := Thread.Level.mk.inj (Thread.level_emit t ⟨.call, name⟩)
    refine ⟨(Thread.level_emit ..).trans (same.trans (Thread.level_emit ..)), fun hl hd => ?_⟩
    exact inner (limit_eq.trans hl) (Nat.le_trans (Nat.le_of_eq depth_eq) hd)

namespace Operation

def levelsOf (standing : Thread × Nat) : Nat × Nat := (standing.1.depth, standing.2)

abbrev KeepsLevels (program : Program Outcome) : Prop :=
  Keeps (fun s => levelsOf s.standing) program

/-- A change of the thread leaves what it leaves of the thread. -/
theorem keeps_modifyThread {τ : Type} {part : Thread × Nat → τ} {f : Thread → Thread}
    (h : ∀ t levels, part (f t, levels) = part (t, levels)) :
    Keeps (fun s => part s.standing) (done (Activity.modifyThread f)) :=
  fun s => h s.runtime.thread s.openLevels

/-- Operations that neither open nor close a level of their own, and that do not call. -/
theorem keepsLevels_run {operation : Operation} (plain : operation.calling? = none)
    (h : ∀ name, operation ≠ .enter name) (h' : operation ≠ .leave) :
    KeepsLevels operation.run := by
  cases operation with
  | call | callMethod | callDirectly => cases plain
  | enter name => exact absurd rfl (h name)
  | leave => exact absurd rfl h'
  | profile | stopProfile | resetCounts => exact fun _ => rfl
  | takeLog => exact fun _ => rfl
  | setLimit limit =>
    refine keeps_modifyThread fun t _ => ?_
    unfold Thread.withLimit
    split <;> rfl
  | _ => exact (quiet_run _ rfl).part_of levelsOf

theorem run_enter (s : Session) (name : String) :
    (run (.enter name)).run s =
      if s.runtime.thread.hasRoom then
        (.ok (.count (s.runtime.thread.depth + 1)),
          { s with
            runtime := { s.runtime with thread := s.runtime.thread.enter }
            openLevels := s.openLevels + 1 })
      else (.error (.failed (.recursionLimit name s.runtime.thread.limit)), s) := by
  have read : (run (.enter name)).run s = (if s.runtime.thread.hasRoom then do
      Program.act (Activity.modifyThread Thread.enter)
      modify fun s => { s with openLevels := s.openLevels + 1 }
      return .count (s.runtime.thread.depth + 1)
    else throw (.failed (.recursionLimit name s.runtime.thread.limit)) : Program Outcome).run s :=
    rfl
  rw [read]
  split <;> rfl

theorem run_leave (s : Session) :
    (run .leave).run s =
      if s.openLevels = 0 then (.error .malformed, s)
      else
        (.ok (.count s.runtime.thread.leave.depth),
          { s with
            runtime := { s.runtime with thread := s.runtime.thread.leave }
            openLevels := s.openLevels - 1 }) := by
  have read : (run .leave).run s = ((if s.openLevels = 0 then do
      Program.malformed
      Program.act (Activity.modifyThread Thread.leave)
      modify fun s => { s with openLevels := s.openLevels - 1 }
      return .count (← Program.runtime).thread.depth
    else do
      Program.act (Activity.modifyThread Thread.leave)
      modify fun s => { s with openLevels := s.openLevels - 1 }
      return .count (← Program.runtime).thread.depth) : Program Outcome).run s :=
    rfl
  rw [read]
  split <;> rfl

end Operation

def Activity.failure (rt : Runtime) (a : Activity Value) : Option CallError :=
  match (a.run rt).1 with
  | .ok _ => none
  | .error e => some e

namespace Session

/-- The depth is the number of levels that the program holds open, and it fits in 32 bits. -/
structure Balanced (s : Session) : Prop where
  depth : s.runtime.thread.depth = s.openLevels
  small : s.runtime.thread.depth < UInt32.size

/-- Balance does not depend on anything but depth and open levels. -/
theorem Balanced.of_levels {s s' : Session} (h : s.Balanced)
    (depth : s'.runtime.thread.depth = s.runtime.thread.depth)
    (levels : s'.openLevels = s.openLevels) : s'.Balanced :=
  ⟨by rw [depth, levels, h.depth], depth ▸ h.small⟩

theorem Balanced.perform {s : Session} (h : s.Balanced) {operation : Operation}
    (ran : (operation.run.run s).2.Balanced) (label : Option String) :
    (s.step operation label).2.Balanced := by
  rcases s.standing_step operation label with same | ⟨-, same⟩
  · obtain ⟨thread, levels⟩ := Prod.mk.inj same
    exact ran.of_levels (congrArg Thread.depth thread) levels
  · obtain ⟨thread, levels⟩ := Prod.mk.inj same
    exact h.of_levels (congrArg Thread.depth thread) levels

theorem Balanced.enter {s : Session} (h : s.Balanced) (name : String) :
    ((Operation.run (.enter name)).run s).2.Balanced := by
  rw [Operation.run_enter]
  split
  · rename_i room
    have below : s.runtime.thread.depth < s.runtime.thread.limit.toNat := of_decide_eq_true room
    have small := s.runtime.thread.limit.toNat_lt_size
    exact ⟨congrArg (· + 1) h.depth, by simp only [Thread.enter]; omega⟩
  · exact h

theorem Balanced.leave {s : Session} (h : s.Balanced) :
    ((Operation.run .leave).run s).2.Balanced := by
  rw [Operation.run_leave]
  split
  · exact h
  · exact ⟨congrArg (· - 1) h.depth, Nat.lt_of_le_of_lt (Nat.sub_le ..) h.small⟩

theorem Balanced.step {s : Session} (h : s.Balanced) (operation : Operation)
    (label : Option String) : (s.step operation label).2.Balanced := by
  cases calls : operation.calling? with
  | some calling =>
    obtain ⟨-, level, levels⟩ := s.step_reads .silent calls label
    exact h.of_levels (congrArg Thread.Level.depth level) levels
  | none =>
    by_cases enters : ∃ name, operation = .enter name
    · obtain ⟨name, rfl⟩ := enters
      exact h.perform (h.enter name) label
    · by_cases leaves : operation = .leave
      · subst leaves
        exact h.perform h.leave label
      · have kept := (Operation.keepsLevels_run calls (fun name he => enters ⟨name, he⟩)
          leaves).step s label
        obtain ⟨depth, levels⟩ := Prod.mk.inj kept
        exact h.of_levels depth levels

theorem Reachable.balanced {s : Session} (h : s.Reachable) : s.Balanced := by
  induction h with
  | start config entries => exact ⟨rfl, Nat.zero_lt_succ _⟩
  | step _ operation _ label ih => exact ih.step operation label

/-- Between steps the depth is the number of levels that the program holds open, and it fits in 32
bits. A call leaves it as it was, however it ends and whatever it calls, and with it the limit; no
dispatch in it gets deeper than the call began or than the limit, or is under another limit. A
dispatch gets to its entry point only below the limit, and only if it is not refused before;
otherwise it changes nothing but the count of refusals. -/
theorem Reachable.depth_exact {s : Session} (h : s.Reachable) :
    (s.runtime.thread.depth = s.openLevels ∧ s.runtime.thread.depth < UInt32.size) ∧
    (∀ (rt : Runtime) (i : Invocation),
      Activity.Copies rt (i.run Activity.call) (i.run Activity.recordedCall) ∧
      ((i.run Activity.call).run rt).2.thread.level = rt.thread.level ∧
      rt.dispatches
        (Attempt.isBeyond (max rt.thread.depth rt.thread.limit.toNat) rt.thread.limit) i = 0) ∧
    ∀ d : Dispatch, d.Levelled := by
  refine ⟨⟨h.balanced.depth, h.balanced.small⟩, fun rt i => ?_, Dispatch.levelled⟩
  obtain ⟨copies, ⟨-, bounded⟩, level⟩ := Runtime.attempts_read
    (boundGauge (max rt.thread.depth rt.thread.limit.toNat) rt.thread.limit (Nat.le_max_right ..))
    rt i
  refine ⟨copies, level, List.countP_eq_zero.mpr fun a ha => ?_⟩
  exact Bool.eq_false_iff.mp (bounded rfl (Nat.le_max_left ..) a ha)

/-- A program that has made a function without arguments and then used up all levels. -/
def exhausted : Session :=
  (start .standard .empty).run [
    (.define "m" ⟨"m", .noArgs, .lead, .noArgs, none, false⟩, none),
    (.newBuiltinFunction "m" none none, some "f"),
    (.setLimit 1, none),
    (.enter "g", none)]

theorem exhausted_reachable : exhausted.Reachable :=
  (Reachable.start _ _).run (by decide +kernel)

theorem exhausted_depth_exact :
    exhausted.Reachable ∧ exhausted.runtime.thread.depth = exhausted.openLevels ∧
      exhausted.openLevels = 1 ∧
      ((Invocation.run Activity.call (.call (.object 0) [] [])).run
        exhausted.runtime).2.thread.depth = 1 := by
  obtain ⟨⟨depth, -⟩, calls, -⟩ := Reachable.depth_exact exhausted_reachable
  have opened : exhausted.openLevels = 1 := by decide +kernel
  refine ⟨exhausted_reachable, depth, opened, ?_⟩
  have kept := (calls exhausted.runtime (.call (.object 0) [] [])).2.1
  exact (congrArg Thread.Level.depth kept).trans (depth.trans opened)

/-- Not every call of a function at the limit fails with the limit: arguments are checked first. -/
theorem limit_not_first :
    ¬ ∀ (rt : Runtime) (callee : Value) (f : Function) (args : List Value) (keywords : Keywords),
      rt.Reachable → rt.baseFunction? callee = some f →
      rt.thread.limit.toNat ≤ rt.thread.depth →
      ((Activity.call callee args keywords).run rt).1 =
        .error (.recursionLimit f.entry.name rt.thread.limit) := by
  intro all
  obtain ⟨present, full, refused⟩ :
      (exhausted.runtime.baseFunction? (.object 0)).isSome ∧
      exhausted.runtime.thread.limit.toNat ≤ exhausted.runtime.thread.depth ∧
      Activity.failure exhausted.runtime (Activity.call (.object 0) [.int 1] []) =
        some (.takesNoArguments "m" 1) := by
    decide +kernel
  obtain ⟨f, hf⟩ := Option.isSome_iff_exists.mp present
  have limited := all exhausted.runtime (.object 0) f [.int 1] []
    (.of_session exhausted_reachable) hf full
  rw [Activity.failure, limited] at refused
  exact nomatch refused

end Session
end Callables
