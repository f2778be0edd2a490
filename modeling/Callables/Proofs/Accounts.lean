import Callables.Proofs.Levels

namespace Callables

inductive Account
  | calls (convention : Convention)
  | refusals
deriving DecidableEq

namespace Account

def read (account : Account) (c : CallCounts) : Nat :=
  match account with
  | .calls .noArgs => c.noArgs
  | .calls .single => c.single
  | .calls .varArgs => c.varArgs
  | .calls .varArgsKeywords => c.varArgsKeywords
  | .calls .fast => c.fast
  | .calls .fastKeywords => c.fastKeywords
  | .refusals => c.rejected

/-- A call goes to the counter of its convention and to no other. -/
theorem read_record (account : Account) (c : CallCounts) (k : Convention) :
    account.read (c.record k) = account.read c + (account == .calls k).toNat := by
  cases account with
  | calls convention => cases convention <;> cases k <;> rfl
  | refusals => cases k <;> rfl

/-- A refusal goes to the counter of refusals and to no other. -/
theorem read_reject (account : Account) (c : CallCounts) :
    account.read c.reject = account.read c + (account == .refusals).toNat := by
  cases account with
  | calls convention => cases convention <;> rfl
  | refusals => rfl

end Account

def Attempt.account? (a : Attempt) : Option Account :=
  if !a.accepted then some .refusals
  else if a.thread.hasRoom then some (.calls a.entry.convention)
  else none

def Attempt.goesTo (wanted : Account → Bool) (a : Attempt) : Bool := a.account?.any wanted

/-- A number read off the counts to which some of the counters contribute. -/
structure Reckoning (wanted : Account → Bool) where
  read : CallCounts → Nat
  zero : read .zero = 0
  record : ∀ c k, read (c.record k) = read c + (wanted (.calls k)).toNat
  reject : ∀ c, read c.reject = read c + (wanted .refusals).toNat

namespace Reckoning

def single (account : Account) : Reckoning (· == account) where
  read := account.read
  zero := by
    cases account with
    | calls convention => cases convention <;> rfl
    | refusals => rfl
  record c k := by rw [account.read_record, BEq.comm]
  reject c := by rw [account.read_reject, BEq.comm]

def sum : Reckoning (fun _ => true) where
  read c := c.total + c.rejected
  zero := rfl
  record c k := by
    cases k <;> simp only [CallCounts.record, CallCounts.total, Bool.toNat_true] <;> omega
  reject c := by
    simp only [CallCounts.reject, CallCounts.total, Bool.toNat_true]
    omega

variable {wanted : Account → Bool}

theorem read_emit (r : Reckoning wanted) (t : Thread) (e : Event) :
    r.read (t.emit e).counts = r.read t.counts := by
  unfold Thread.emit
  split <;> rfl

theorem read_opening (r : Reckoning wanted) (entry : Entry) (t : Thread) :
    r.read (entry.opening t).counts =
      r.read t.counts + (wanted (.calls entry.convention)).toNat := by
  unfold Entry.opening
  dsimp only
  split
  · exact r.record _ _
  · rw [read_emit]
    exact r.record _ _

theorem read_closing (r : Reckoning wanted) (entry : Entry) (ok : Bool) (t : Thread) :
    r.read (entry.closing ok t).counts = r.read t.counts := by
  unfold Entry.closing
  dsimp only
  split
  · rfl
  · exact r.read_emit ..

/-- A number read off the counts goes up by one with each dispatch that goes to one of the counters
wanted, and with nothing else. -/
def gauge (r : Reckoning wanted) : Gauge where
  Reads as t t' := r.read t'.counts = r.read t.counts + as.countP (Attempt.goesTo wanted)
  refl _ := rfl
  trans hm hn := by rw [hn, hm, List.countP_append, Nat.add_assoc]
  refused t entry := by
    have goes : Attempt.goesTo wanted ⟨t, entry, false⟩ = wanted .refusals := rfl
    rw [r.reject, List.countP_singleton, goes]
    cases wanted .refusals <;> rfl
  limited t entry full := by simp [Attempt.goesTo, Attempt.account?, full]
  entered := by
    intro t t' as entry room inner _ ok
    have goes : Attempt.goesTo wanted ⟨t, entry, true⟩ = wanted (.calls entry.convention) := by
      simp [Attempt.goesTo, Attempt.account?, room]
    rw [r.read_closing, inner, r.read_opening, List.countP_cons, goes]
    cases wanted (.calls entry.convention) with
    | false => rfl
    | true => exact Nat.add_right_comm ..
  hosted := by
    intro t t' as name inner
    rw [r.read_emit, inner, r.read_emit]

end Reckoning

namespace Dispatch

def nested (d : Dispatch) (which : Attempt → Bool) : Nat :=
  match d.delivery with
  | .error _ => 0
  | .ok delivery => if d.runtime.thread.hasRoom then (d.within delivery).countP which else 0

variable {d : Dispatch} {wanted : Account → Bool}

theorem account?_refused {e : CallError} (refused : d.delivery = .error e) :
    d.attempt.account? = some .refusals := by
  rw [attempt_refused refused]
  rfl

theorem account?_accepted {delivery : Delivery d.function.entry.convention}
    (accepted : d.delivery = .ok delivery) :
    d.attempt.account? =
      if d.runtime.thread.hasRoom then some (.calls d.function.entry.convention) else none := by
  rw [attempt_accepted accepted]
  rfl

/-- A dispatch goes to its own counter once; all else on the counters comes from dispatches in
its entry point. -/
theorem reckoned (r : Reckoning wanted) (d : Dispatch) :
    r.read d.run.2.thread.counts =
      r.read d.runtime.thread.counts + (d.attempt.goesTo wanted).toNat +
        d.nested (Attempt.goesTo wanted) := by
  unfold Attempt.goesTo
  cases handed : d.delivery with
  | error e =>
    rw [run_refused handed, account?_refused handed, nested, handed]
    exact r.reject _
  | ok delivery =>
    rw [account?_accepted handed, nested, handed]
    cases room : d.runtime.thread.hasRoom with
    | false =>
      rw [run_limited handed room]
      rfl
    | true =>
      have inner : r.read (d.served delivery).2.thread.counts =
          r.read d.opened.thread.counts +
            (d.within delivery).countP (Attempt.goesTo wanted) :=
        (served_copies r.gauge delivery).2.1
      have opened : r.read d.opened.thread.counts = r.read d.runtime.thread.counts +
          (wanted (.calls d.function.entry.convention)).toNat := r.read_opening _ _
      rw [run_entered handed room]
      dsimp only [if_true]
      rw [r.read_closing, inner, opened]
      rfl

/-- How a dispatch is counted: a refusal as such, a call that gets to its entry point by its
convention, and one that only the recursion limit stops not at all. Each counter goes up by what
goes to it of the dispatch itself and of the dispatches in its entry point, which are those that a
copy of the entry point writes down. -/
structure Accounted (d : Dispatch) : Prop where
  refused : ∀ e, d.delivery = .error e →
    d.run.1 = .error e ∧ d.attempt.account? = some .refusals
  entered : ∀ delivery, d.delivery = .ok delivery → d.runtime.thread.hasRoom = true →
    d.run.1 = (d.served delivery).1 ∧
      d.attempt.account? = some (.calls d.function.entry.convention)
  limited : ∀ delivery, d.delivery = .ok delivery → d.runtime.thread.hasRoom = false →
    d.run.1 = .error (.recursionLimit d.function.entry.name d.runtime.thread.limit) ∧
      d.attempt.account? = none
  counted : ∀ account : Account, account.read d.run.2.thread.counts =
    account.read d.runtime.thread.counts + (d.attempt.account? == some account).toNat +
      d.nested (Attempt.goesTo (· == account))
  copies : ∀ delivery, d.delivery = .ok delivery →
    Activity.Copies d.opened (Activity.runNative Activity.call d.function.entry.native delivery)
      (Activity.runNative Activity.recordedCall d.function.entry.native delivery)

theorem accounted (d : Dispatch) : d.Accounted where
  refused e handed := ⟨by rw [run_refused handed], account?_refused handed⟩
  entered delivery accepted room :=
    ⟨by rw [run_entered accepted room], by rw [account?_accepted accepted, room]; rfl⟩
  limited delivery accepted full :=
    ⟨by rw [run_limited accepted full], by rw [account?_accepted accepted, full]; rfl⟩
  counted account := by
    have own : d.attempt.goesTo (· == account) = (d.attempt.account? == some account) := by
      unfold Attempt.goesTo
      cases d.attempt.account? <;> simp
    rw [← own]
    exact d.reckoned (.single account)
  copies delivery _ := (served_copies .silent delivery).1

end Dispatch

namespace Operation

def resets : Operation → Bool
  | .resetCounts => true
  | _ => false

def countsOf (standing : Thread × Nat) : CallCounts := standing.1.counts

theorem keepsCounts_run {operation : Operation} (plain : operation.calling? = none)
    (kept : operation.resets = false) :
    Keeps (fun s => countsOf s.standing) operation.run := by
  cases operation with
  | call | callMethod | callDirectly => cases plain
  | resetCounts => cases kept
  | enter name =>
    intro s
    rw [run_enter]
    split <;> rfl
  | leave =>
    intro s
    rw [run_leave]
    split <;> rfl
  | profile | stopProfile | takeLog => exact fun _ => rfl
  | setLimit limit =>
    refine keeps_modifyThread fun t _ => ?_
    unfold Thread.withLimit
    split <;> rfl
  | _ => exact (quiet_run _ rfl).part_of countsOf

end Operation

namespace Session

variable {wanted : Account → Bool}

/-- How many dispatches of a sort there have been since the counts were last set to zero, when these
operations have been carried out one after the other; there have been `n` so far. -/
def tally (which : Attempt → Bool) : Session → Nat → List (Operation × Option String) → Nat
  | _, n, [] => n
  | s, n, (operation, label) :: rest =>
    tally which (s.step operation label).2
      (if operation.resets then 0 else n + s.dispatches which operation) rest

theorem tally_split (which : Attempt → Bool) (s : Session) (m n : Nat)
    (operations : List (Operation × Option String)) :
    s.tally (fun _ => true) (m + n) operations =
      s.tally which m operations + s.tally (fun a => !which a) n operations := by
  induction operations generalizing s m n with
  | nil => rfl
  | cons o rest ih =>
    have split : s.dispatches (fun _ => true) o.1 =
        s.dispatches which o.1 + s.dispatches (fun a => !which a) o.1 := by
      simp only [dispatches, List.countP_true]
      simpa using List.length_eq_countP_add_countP which (l := s.attempts o.1)
    -- A reset sets both counts to zero; any other operation adds to both.
    rw [tally, tally, tally, ← ih, split]
    cases o.1.resets with
    | true => rfl
    | false =>
      simp only [Bool.false_eq_true, if_false]
      rw [Nat.add_add_add_comm]

theorem step_resetCounts (s : Session) (label : Option String) :
    (s.step .resetCounts label).2.runtime.thread.counts = .zero := by
  rcases s.standing_step .resetCounts label with same | ⟨malformed, -⟩
  · exact congrArg (·.1.counts) same
  · cases malformed

/-- What a step does to a number that is read off the counts. -/
theorem reckoned_step (r : Reckoning wanted) (s : Session) (operation : Operation)
    (label : Option String) :
    r.read (s.step operation label).2.runtime.thread.counts =
      if operation.resets then 0
      else r.read s.runtime.thread.counts + s.dispatches (Attempt.goesTo wanted) operation := by
  cases resets : operation.resets with
  | true =>
    cases operation with
    | resetCounts => rw [step_resetCounts]; exact r.zero
    | _ => cases resets
  | false =>
    cases calls : operation.calling? with
    | some calling => exact (s.step_reads r.gauge calls label).1
    | none =>
      have counts : (s.step operation label).2.runtime.thread.counts = s.runtime.thread.counts :=
        (Operation.keepsCounts_run calls resets).step s label
      have none : s.dispatches (Attempt.goesTo wanted) operation = 0 := by
        rw [dispatches, attempts, calls]
        rfl
      rw [counts, none]
      rfl

theorem reckoned_run (r : Reckoning wanted) (s : Session)
    (operations : List (Operation × Option String)) :
    r.read (s.run operations).runtime.thread.counts =
      s.tally (Attempt.goesTo wanted) (r.read s.runtime.thread.counts) operations := by
  induction operations generalizing s with
  | nil => rfl
  | cons o rest ih =>
    rw [tally, ← reckoned_step]
    exact ih (s.step o.1 o.2).2

/-- All counters together show the dispatches that the recursion limit does not stop. -/
theorem reckoned_add_limited (s : Session) (operations : List (Operation × Option String)) :
    (s.run operations).runtime.thread.counts.total +
        (s.run operations).runtime.thread.counts.rejected + s.tally Attempt.limited 0 operations =
      s.tally (fun _ => true)
        (s.runtime.thread.counts.total + s.runtime.thread.counts.rejected) operations := by
  have limited : Attempt.limited = fun a => !a.goesTo fun _ => true := by
    funext a
    unfold Attempt.goesTo Attempt.account? Attempt.limited
    cases a.accepted <;> cases a.thread.hasRoom <;> rfl
  have counted : (s.run operations).runtime.thread.counts.total +
      (s.run operations).runtime.thread.counts.rejected = _ := reckoned_run .sum s operations
  rw [limited, counted]
  exact (s.tally_split _ _ 0 operations).symm

/-- A dispatch goes to one counter, once, unless the recursion limit alone stops it. Over any run
each counter shows the dispatches that went to it since the last reset; all counters together show
all dispatches since then if and only if the limit has stopped none of them. The dispatches are
those that a copy of what is called writes down. -/
theorem dispatches_accounted (d : Dispatch) (s : Session)
    (operations : List (Operation × Option String)) :
    d.Accounted ∧
    (∀ account : Account, account.read (s.run operations).runtime.thread.counts =
      s.tally (Attempt.goesTo (· == account)) (account.read s.runtime.thread.counts)
        operations) ∧
    ((s.run operations).runtime.thread.counts.total +
        (s.run operations).runtime.thread.counts.rejected =
      s.tally (fun _ => true)
        (s.runtime.thread.counts.total + s.runtime.thread.counts.rejected) operations ↔
      s.tally Attempt.limited 0 operations = 0) ∧
    ∀ (operation : Operation) (calling : Calling), operation.calling? = some calling →
      operation.run = calling.read >>= (fun passed =>
        Operation.value (calling.pass Activity.call passed)) ∧
      ∀ passed rt, Activity.Copies rt (calling.pass Activity.call passed)
        (calling.pass Activity.recordedCall passed) := by
  refine ⟨d.accounted, fun account => reckoned_run (.single account) s operations, ?_, ?_⟩
  · have counted := s.reckoned_add_limited operations
    omega
  · exact fun operation calling h => ⟨Operation.run_calling h, fun passed rt =>
      (Operation.pass_copies .silent h passed rt).1⟩

/-- A dispatch that the recursion limit stops is on no counter. -/
theorem limited_unaccounted :
    ¬ ∀ (s : Session) (callee : Value) (args : List Value), s.Reachable →
      ((Activity.call callee args []).run s.runtime).2.thread.counts.total +
          ((Activity.call callee args []).run s.runtime).2.thread.counts.rejected =
        s.runtime.thread.counts.total + s.runtime.thread.counts.rejected +
          s.runtime.dispatches (fun _ => true) (.call callee args []) := by
  intro all
  have equal := all exhausted (.object 0) [] exhausted_reachable
  revert equal
  decide +kernel

end Session
end Callables
