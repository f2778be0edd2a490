import Callables.Proofs.Following
import Callables.Proofs.Sessions

namespace Callables

namespace Program

abbrev keepingTypes : Course Session := .keeping fun s => s.runtime.types

theorem reads_keepingTypes : Reads keepingTypes := ⟨fun _ _ => rfl, fun _ _ _ => rfl⟩

theorem run_readType_kept {s : Session} {name : String} {id : TypeId}
    (kept : s.kept.get? name = some (.type id)) :
    (readType (.kept name)).run s = (.ok id, s) := by
  have value : (read (.kept name)).run s = (.ok (.type id), s) := by
    have found : (read (.kept name)).run s = (need (s.kept.get? name)).run s := by
      rw [read]
      rfl
    rw [found, kept]
    rfl
  rw [readType, run_bind, value]
  rfl

end Program

namespace Session

theorem step_answer (s : Session) (operation : Operation) (label : Option String) :
    (s.step operation label).1 = (operation.run.run s).1 := by
  unfold step Program.perform
  rcases operation.run.run s with ⟨stop | outcome, after⟩
  · cases stop <;> rfl
  · dsimp only
    split <;> rfl

/-- A step leaves the types as its program does, or as they were if the program is malformed. -/
theorem types_step (s : Session) (operation : Operation) (label : Option String) :
    (s.step operation label).2.runtime.types = (operation.run.run s).2.runtime.types ∨
      (operation.run.run s).1 = .error .malformed ∧
        (s.step operation label).2.runtime.types = s.runtime.types := by
  unfold step Program.perform
  rcases operation.run.run s with ⟨stop | outcome, after⟩
  · cases stop with
    | malformed => exact .inr ⟨rfl, rfl⟩
    | failed cause => exact .inl rfl
  · left
    dsimp only
    split <;> rfl

structure Ends (s : Session) (operation : Operation) (answer : Except Stop Outcome)
    (types : Types) : Prop where
  answer : ∀ label, (s.step operation label).1 = answer
  types : ∀ label, (s.step operation label).2.runtime.types = types

/-- How a step ends that changes the types: it fails and they are as they were, or it answers and
they are changed. -/
def EndsWith (s : Session) (operation : Operation) : Except TypeFault (Outcome × Types) → Prop
  | .error fault => s.Ends operation (.error (.failed (.typeFault fault))) s.runtime.types
  | .ok (outcome, types) => s.Ends operation (.ok outcome) types

theorem ends_of_run {s after : Session} {operation : Operation} {answer : Except Stop Outcome}
    {types : Types} (ran : operation.run.run s = (answer, after))
    (left : after.runtime.types = types)
    (failed : ∀ stop, answer = .error stop → types = s.runtime.types) :
    s.Ends operation answer types := by
  constructor
  · intro label
    rw [step_answer, ran]
  · intro label
    rcases s.types_step operation label with same | ⟨malformed, same⟩
    · rw [same, ran, left]
    · rw [ran] at malformed
      rw [same, failed _ malformed]

section Reading

variable {α : Type} {s s₁ : Session} {operation : Operation} {p : Program α}
  {f : α → Program Outcome}

/-- An operation that cannot read what it is about changes no types. -/
theorem ends_of_unread {stop : Stop} (reading : operation.run = p >>= f)
    (kept : Follows Program.keepingTypes p) (read : p.run s = (.error stop, s₁)) :
    s.Ends operation (.error stop) s.runtime.types := by
  have same := kept s
  rw [read] at same
  exact ends_of_run (by rw [reading, run_bind, read]) same fun _ _ => rfl

/-- An operation that reads something and with that changes the types, unless it is refused. -/
theorem endsWith_of_change {β : Type} {a : α} (change : α → Types → Except TypeFault β)
    (outcome : α → β → Outcome) (types : β → Types)
    (reading : operation.run = (do
      let a ← p
      let b ← Operation.ofTypes (change a (← Program.runtime).types)
      Operation.setTypes (types b)
      return outcome a b))
    (kept : Follows Program.keepingTypes p) (read : p.run s = (.ok a, s₁)) :
    s.EndsWith operation ((change a s.runtime.types).map fun b => (outcome a b, types b)) := by
  have same : s₁.runtime.types = s.runtime.types := by
    have same := kept s
    rw [read] at same
    exact same
  have ran : operation.run.run s = (do
      let b ← Operation.ofTypes (change a s.runtime.types)
      Operation.setTypes (types b)
      return outcome a b : Program Outcome).run s₁ := by
    rw [reading, run_bind, read, ← same]
    rfl
  cases changed : change a s.runtime.types with
  | error fault => exact ends_of_run (by rw [ran, changed]; rfl) same fun _ _ => rfl
  | ok b =>
    have ended : operation.run.run s =
        (.ok (outcome a b), { s₁ with runtime := { s₁.runtime with types := types b } }) := by
      rw [ran, changed]
      rfl
    exact ends_of_run ended rfl (fun _ h => by cases h)

end Reading

section Operations

variable {s s₁ : Session}

theorem keeps_readTypes (operands : List Operand) :
    Follows Program.keepingTypes (operands.mapM Program.readType) :=
  follows_mapM (fun _ => Program.reads_keepingTypes.readType _) operands

theorem ends_newType_of_unread {bases : List Operand} {stop : Stop}
    (read : (bases.mapM Program.readType).run s = (.error stop, s₁)) (name : String) :
    s.Ends (.newType name bases) (.error stop) s.runtime.types :=
  ends_of_unread rfl (keeps_readTypes bases) read

/-- The making of a type is refused or there is a new type. -/
theorem endsWith_newType {bases : List Operand} {ids : List TypeId}
    (read : (bases.mapM Program.readType).run s = (.ok ids, s₁)) (name : String) :
    s.EndsWith (.newType name bases)
      ((s.runtime.types.create name ids).map fun new => (.value (.type new.1), new.2)) :=
  endsWith_of_change (fun ids types => types.create name ids)
    (fun _ new => .value (.type new.1)) Prod.snd rfl (keeps_readTypes bases) read

/-- Flags are refused, or they are set and the answer shows all that the type has now. -/
theorem endsWith_addTypeFlags {type : Operand} {id : TypeId}
    (read : (Program.readType type).run s = (.ok id, s₁)) (flags : TypeFlags) :
    s.EndsWith (.addTypeFlags type flags)
      ((s.runtime.types.addFlags id flags).map fun types =>
        (.flags (types.info id).flags, types)) :=
  endsWith_of_change (fun id types => types.addFlags id flags)
    (fun id types => .flags (types.info id).flags) (fun types => types) rfl
    (Program.reads_keepingTypes.readType type) read

end Operations

end Session

end Callables
