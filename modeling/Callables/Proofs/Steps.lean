import Callables.Proofs.EditingSteps
import Callables.Proofs.Recording
import Callables.Proofs.Sessions

namespace Callables

namespace Activity

theorem keepsThread_store (r : Ref) (o : Object) : Keeps Runtime.thread (store r o) := by
  refine follows_get fun rt => ?_
  split <;> exact fun _ => rfl

theorem keepsThread_modifyMetadata (r : Ref) (change : Metadata → Metadata) :
    Keeps Runtime.thread (modifyMetadata r change) := by
  refine follows_get fun rt => ?_
  split
  · split
    · exact keepsThread_store _ _
    · exact follows_pure ()
  · exact follows_pure ()

theorem keepsThread_newHostFunction (code : Ref) (c : Code) (globals : Value)
    (qualname : Option String) (closure : Option Ref) :
    Keeps Runtime.thread (newHostFunction code c globals qualname closure) := by
  refine follows_get fun rt => ?_
  split
  · exact follows_throw _
  · dsimp only
    split
    · exact follows_throw_bind _ _
    · exact Follows.bind (fun rt => (makes_textOr qualname c.qualname).thread rt) fun _ _ => rfl

end Activity

namespace Program

variable {α : Type}

abbrev Quiet (p : Program α) : Prop := Keeps Session.standing p

theorem Makes.quiet {p : Program α} (h : Makes p) : Quiet p := Follows.weaken h And.right

theorem quiet_act {activity : Activity α} (h : Keeps Runtime.thread activity) :
    Quiet (act activity) := by
  intro s
  rw [run_act]
  exact congrArg (·, s.openLevels) (h s.runtime)

theorem reads_standing : Reads (.keeping Session.standing) :=
  ⟨fun content => Makes.quiet (reads_making.text content),
    fun function module => Makes.quiet (reads_making.allocate function module)⟩

end Program

namespace Operation

open Program

theorem quiet_run (operation : Operation) (h : operation.isQuiet = true) :
    Quiet operation.run := by
  show Follows (.keeping Session.standing) operation.run
  cases operation with
  | call | callMethod | callDirectly => cases h
  | profile | stopProfile | takeLog | resetCounts | setLimit | enter | leave => cases h
  | newHostFunction code globals qualname closure =>
    exact (reads_standing.readObject _ code).bind fun _ =>
      (reads_standing.read globals).bind fun _ =>
      (follows_mapM_option (reads_standing.readObject _) closure).bind fun _ =>
        follows_value (quiet_act (Activity.keepsThread_newHostFunction _ _ _ _ _))
  | setMetadata function field v =>
    exact (reads_standing.readObject _ function).bind fun _ => (reads_standing.read v).bind fun _ =>
      (follows_need _).bind fun _ => follows_runtime fun _ => (follows_need _).bind fun _ =>
        follows_done (quiet_act (Activity.keepsThread_modifyMetadata _ _))
  | watch function mark =>
    exact (reads_standing.readObject _ function).bind fun _ =>
      (quiet_act (Activity.keepsThread_store _ _)).bind fun _ => follows_pure _
  | _ => exact (makes_run _ rfl rfl).quiet

end Operation

/-- What an operation that calls consists of: the operands, and the way in which it calls, given how
values are called one level deeper. -/
structure Calling where
  way : Callee → Callee
  target : Operand
  args : List Operand
  keywords : List (String × Operand)

namespace Calling

def read (c : Calling) : Program (Value × List Value × Keywords) := do
  let target ← Program.read c.target
  let args ← Program.readAll c.args
  let keywords ← Program.readKeywords c.keywords
  return (target, args, keywords)

def pass (c : Calling) (call : Callee) : Value × List Value × Keywords → Activity Value
  | (target, args, keywords) =>
    Activity.holding (keywords.values ++ args ++ [target]) (c.way call target args keywords)

theorem quiet_read (c : Calling) : Program.Quiet c.read :=
  (Program.reads_standing.read _).bind fun _ => (Program.reads_standing.readAll _).bind fun _ =>
    (Program.reads_standing.readKeywords _).bind fun _ => follows_pure _

end Calling

namespace Operation

def calling? : Operation → Option Calling
  | .call callee args keywords => some ⟨id, callee, args, keywords⟩
  | .callMethod receiver name args keywords =>
    some ⟨fun call receiver => Activity.callMethodWith call receiver name, receiver, args, keywords⟩
  | .callDirectly callee args keywords =>
    some ⟨Activity.callDirectlyWith, callee, args, keywords⟩
  | _ => none

variable {operation : Operation} {calling : Calling}

theorem run_calling (h : operation.calling? = some calling) :
    operation.run = calling.read >>= fun passed => value (calling.pass Activity.call passed) := by
  cases operation with
  | call | callMethod | callDirectly =>
    obtain rfl := Option.some.inj h
    simp only [Calling.read, bind_assoc, pure_bind]
    rfl
  | _ => cases h

theorem way_calls {ρ : Relocation} {bond : Bond ρ} {c c' : Callee}
    (h : operation.calling? = some calling) (hc : bond.Calls c c') :
    bond.Calls (calling.way c) (calling.way c') := by
  cases operation with
  | call =>
    obtain rfl := Option.some.inj h
    exact hc
  | callMethod receiver name =>
    obtain rfl := Option.some.inj h
    exact fun p holds receiver args keywords known ha hk =>
      Bond.joins_callMethodWith hc holds name known ha hk
  | callDirectly =>
    obtain rfl := Option.some.inj h
    exact hc.directly
  | _ => cases h

/-- What an operation passes on goes the same way when the dispatches in it are written down. -/
theorem pass_copies (gauge : Gauge) (h : operation.calling? = some calling)
    (passed : Value × List Value × Keywords) (rt : Runtime) :
    let ran := (calling.pass Activity.call passed).run rt
    Activity.Copies rt (calling.pass Activity.call passed)
        (calling.pass Activity.recordedCall passed) ∧
      gauge.Reads ((calling.pass Activity.recordedCall passed).written rt) rt.thread
        ran.2.thread ∧
      ran.2.thread.level = rt.thread.level := by
  obtain ⟨target, args, keywords⟩ := passed
  have calls : (gauge.beside rt.thread.level).Calls Activity.call Activity.recordedCall :=
    Activity.calls_recordedCall
  have holds : (gauge.beside rt.thread.level).Holds (rt, rt) := ⟨rfl, rfl⟩
  have way (q) (held : (gauge.beside rt.thread.level).Holds q) :
      (gauge.beside rt.thread.level).Joins Relocation.stay.value
        (gauge.beside rt.thread.level).Knows q (calling.way Activity.call target args keywords)
        (calling.way Activity.recordedCall target args keywords) :=
    (way_calls h calls).joins held nofun nofun nofun
  have joins := Bond.Joins.holding holds (keywords.values ++ args ++ [target]) fun q later =>
    way q later.holds
  rw [Relocation.stay_values] at joins
  exact Activity.copies_of_joins joins

theorem standing_value (activity : Activity Value) (s : Session) :
    ((value activity).run s).2.standing =
      ((activity.run s.runtime).2.thread, s.openLevels) := by
  unfold value
  rw [run_bind, Program.run_act]
  cases (activity.run s.runtime).1 <;> rfl

theorem value_ne_malformed (activity : Activity Value) (s : Session) :
    ((value activity).run s).1 ≠ .error .malformed := by
  unfold value
  rw [run_bind, Program.run_act]
  cases (activity.run s.runtime).1 with
  | error e => exact fun h => nomatch h
  | ok v => exact fun h => nomatch h

end Operation

namespace Session

def attempts (s : Session) (operation : Operation) : List Attempt :=
  match operation.calling? with
  | none => []
  | some calling =>
    match calling.read.run s with
    | (.ok passed, s') => (calling.pass Activity.recordedCall passed).written s'.runtime
    | (.error _, _) => []

def dispatches (s : Session) (which : Attempt → Bool) (operation : Operation) : Nat :=
  (s.attempts operation).countP which

end Session

/-- A step leaves the thread as its program does, or as it was if the program is malformed. -/
theorem Session.standing_step (s : Session) (operation : Operation) (label : Option String) :
    (s.step operation label).2.standing = (operation.run.run s).2.standing ∨
      (operation.run.run s).1 = .error .malformed ∧
        (s.step operation label).2.standing = s.standing := by
  unfold step Program.perform
  rcases operation.run.run s with ⟨stop | outcome, after⟩
  · cases stop with
    | malformed => exact .inr ⟨rfl, rfl⟩
    | failed cause => exact .inl rfl
  · left
    dsimp only
    split <;> rfl

/-- What a program leaves of thread and open levels, its step leaves. -/
theorem Keeps.step {τ : Type} {part : Thread × Nat → τ} {operation : Operation}
    (h : Keeps (fun s => part s.standing) operation.run) (s : Session) (label : Option String) :
    part (s.step operation label).2.standing = part s.standing := by
  rcases s.standing_step operation label with kept | ⟨-, kept⟩
  · exact (congrArg part kept).trans (h s)
  · exact congrArg part kept

namespace Session

variable {operation : Operation} {calling : Calling}

/-- A step that cannot read what it is to call leaves the thread alone. -/
theorem standing_step_of_error (h : operation.calling? = some calling) {s s' : Session}
    {stop : Stop} (unread : calling.read.run s = (.error stop, s')) (label : Option String) :
    (s.step operation label).2.standing = s.standing := by
  have operands := calling.quiet_read s
  have kept := s.standing_step operation label
  rw [Operation.run_calling h, run_bind, unread] at kept
  rw [unread] at operands
  rcases kept with kept | ⟨-, kept⟩
  · exact kept.trans operands
  · exact kept

/-- A step that calls does with the thread what its call does. -/
theorem standing_step_of_ok (h : operation.calling? = some calling) {s s' : Session}
    {passed : Value × List Value × Keywords} (read : calling.read.run s = (.ok passed, s'))
    (label : Option String) :
    s'.runtime.thread = s.runtime.thread ∧
      (s.step operation label).2.standing =
        (((calling.pass Activity.call passed).run s'.runtime).2.thread, s.openLevels) := by
  have operands := calling.quiet_read s
  rw [read] at operands
  obtain ⟨thread, levels⟩ := Prod.mk.inj operands
  have kept := s.standing_step operation label
  rw [Operation.run_calling h, run_bind, read] at kept
  refine ⟨thread, ?_⟩
  rcases kept with kept | ⟨malformed, -⟩
  · rw [← levels]
    exact kept.trans (Operation.standing_value _ s')
  · exact absurd malformed (Operation.value_ne_malformed _ s')

/-- A step that calls does with the thread what a gauge reads of its dispatches, and it leaves level
and open levels as they were. -/
theorem step_reads (gauge : Gauge) (s : Session) (h : operation.calling? = some calling)
    (label : Option String) :
    gauge.Reads (s.attempts operation) s.runtime.thread
        (s.step operation label).2.runtime.thread ∧
      (s.step operation label).2.runtime.thread.level = s.runtime.thread.level ∧
      (s.step operation label).2.openLevels = s.openLevels := by
  unfold attempts
  rw [h]
  dsimp only
  rcases read : calling.read.run s with ⟨stop | passed, s'⟩
  · obtain ⟨thread, levels⟩ := Prod.mk.inj (standing_step_of_error h read label)
    rw [thread]
    exact ⟨gauge.refl _, rfl, levels⟩
  · obtain ⟨before, standing⟩ := standing_step_of_ok h read label
    obtain ⟨thread, levels⟩ := Prod.mk.inj standing
    obtain ⟨-, reads, kept⟩ := Operation.pass_copies gauge h passed s'.runtime
    rw [thread, ← before]
    exact ⟨reads, kept, levels⟩

end Session
end Callables
