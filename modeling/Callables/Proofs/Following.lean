import Callables.Proofs.Courses
import Callables.Proofs.Operations

namespace Callables

namespace Program

variable {α β : Type} {course : Course Session}

/-- What reading does to a session: it makes texts, tuples, dicts and code. -/
structure Reads (course : Course Session) : Prop where
  text : ∀ content, Follows course (act (Activity.text content))
  allocate : ∀ {o : Object}, o.function? = none → (∀ name names, o ≠ .module name names) →
    Follows course (act (Activity.allocate o))

theorem follows_need (o : Option α) : Follows course (need o) := by
  cases o with
  | none => exact follows_throw _
  | some a => exact follows_pure a

theorem follows_runtime {f : Runtime → Program β} (h : ∀ rt, Follows course (f rt)) :
    Follows course (runtime >>= f) :=
  fun s => h s.runtime s

namespace Reads

mutual

theorem read (h : Reads course) : (operand : Operand) → Follows course (read operand)
  | .none | .bool _ | .int _ | .float _ => by
    simp only [Program.read]
    exact follows_pure _
  | .text content => by
    simp only [Program.read]
    exact (h.text content).bind fun _ => follows_pure _
  | .kept name => by
    simp only [Program.read]
    exact follows_get fun _ => follows_need _
  | .builtin name => by
    simp only [Program.read]
    exact (follows_need _).bind fun _ => follows_pure _
  | .tuple items => by
    simp only [Program.read]
    exact (h.readAll items).bind fun _ => h.allocate rfl (by simp)
  | .dict pairs => by
    simp only [Program.read]
    exact (h.readPairs pairs).bind fun _ => h.allocate rfl (by simp)

theorem readAll (h : Reads course) : (operands : List Operand) → Follows course (readAll operands)
  | [] => by
    simp only [Program.readAll]
    exact follows_pure _
  | operand :: rest => by
    simp only [Program.readAll]
    exact (h.read operand).bind fun _ => (h.readAll rest).bind fun _ => follows_pure _

theorem readPairs (h : Reads course) :
    (pairs : List (String × Operand)) → Follows course (readPairs pairs)
  | [] => by
    simp only [Program.readPairs]
    exact follows_pure _
  | (name, operand) :: rest => by
    simp only [Program.readPairs]
    exact (h.read operand).bind fun _ => (h.readPairs rest).bind fun _ => follows_pure _

end

theorem readOptional (h : Reads course) (operand : Option Operand) :
    Follows course (readOptional operand) := by
  cases operand with
  | none => exact follows_pure none
  | some operand => exact (h.read operand).bind fun _ => follows_pure _

theorem readKeywords (h : Reads course) (keywords : List (String × Operand)) :
    Follows course (readKeywords keywords) := by
  induction keywords with
  | nil => exact follows_pure _
  | cons keyword rest ih =>
    exact (h.text _).bind fun _ => (h.read _).bind fun _ => ih.bind fun _ => follows_pure _

theorem readType (h : Reads course) (operand : Operand) : Follows course (readType operand) :=
  (h.read operand).bind fun _ => follows_need _

theorem readOptionalType (h : Reads course) (operand : Option Operand) :
    Follows course (readOptionalType operand) := by
  cases operand with
  | none => exact follows_pure none
  | some operand => exact (h.readType operand).bind fun _ => follows_pure _

theorem readObject (h : Reads course) (view : Object → Option α) (operand : Operand) :
    Follows course (readObject view operand) := by
  refine (h.read operand).bind fun v => ?_
  split
  · exact follows_runtime fun _ => (follows_need _).bind fun _ => follows_pure _
  · exact follows_throw _

mutual

theorem body (h : Reads course) : (e : Expr String Operand) →
    Follows course (e.mapM Operation.textName Program.read)
  | .constant value => by
    simp only [Expr.mapM]
    exact (h.read value).bind fun _ => follows_pure _
  | .parameter _ | .argument _ | .cell _ | .global _ | .parameters | .collectedPositional
  | .collectedKeywords | .globals | .function | .codeName | .depth | .raise _ _ => by
    simp only [Expr.mapM]
    exact follows_pure _
  | .tuple items => by
    simp only [Expr.mapM]
    exact (h.bodies items).bind fun _ => follows_pure _
  | .sequence steps => by
    simp only [Expr.mapM]
    exact (h.bodies steps).bind fun _ => follows_pure _
  | .call callee args keywords => by
    simp only [Expr.mapM]
    exact (h.body callee).bind fun _ => (h.bodies args).bind fun _ =>
      (h.namedBodies keywords).bind fun _ => follows_pure _
  | .callMethod receiver name args keywords => by
    simp only [Expr.mapM]
    exact (h.body receiver).bind fun _ => (h.bodies args).bind fun _ =>
      (h.namedBodies keywords).bind fun _ => follows_pure _
  | .getAttribute target name => by
    simp only [Expr.mapM]
    exact (h.body target).bind fun _ => follows_pure _
  | .setAttribute target name value => by
    simp only [Expr.mapM]
    exact (h.body target).bind fun _ => (h.body value).bind fun _ => follows_pure _
  | .attempt body => by
    simp only [Expr.mapM]
    exact (h.body body).bind fun _ => follows_pure _
  | .add left right => by
    simp only [Expr.mapM]
    exact (h.body left).bind fun _ => (h.body right).bind fun _ => follows_pure _
  | .ifPositive condition yes no => by
    simp only [Expr.mapM]
    exact (h.body condition).bind fun _ => (h.body yes).bind fun _ =>
      (h.body no).bind fun _ => follows_pure _

theorem bodies (h : Reads course) : (es : List (Expr String Operand)) →
    Follows course (Expr.mapAllM Operation.textName Program.read es)
  | [] => by
    simp only [Expr.mapAllM]
    exact follows_pure _
  | e :: rest => by
    simp only [Expr.mapAllM]
    exact (h.body e).bind fun _ => (h.bodies rest).bind fun _ => follows_pure _

theorem namedBodies (h : Reads course) : (es : List (String × Expr String Operand)) →
    Follows course (Expr.mapNamedM Operation.textName Program.read es)
  | [] => by
    simp only [Expr.mapNamedM]
    exact follows_pure _
  | (name, e) :: rest => by
    simp only [Expr.mapNamedM]
    exact (h.text name).bind fun _ => (h.body e).bind fun _ =>
      (h.namedBodies rest).bind fun _ => follows_pure _

end

theorem makeCode (h : Reads course) (plan : CodePlan) :
    Follows course (Operation.makeCode plan) :=
  (h.body plan.body).bind fun _ => (h.text _).bind fun _ => (h.text _).bind fun _ =>
    (follows_mapM_option (fun _ => h.text _) _).bind fun _ => h.allocate rfl (by simp)

end Reads

theorem follows_entry (name : String) : Follows course (entry name) :=
  follows_get fun _ => follows_need _

theorem follows_registry (name : String) : Follows course (registry name) :=
  follows_get fun _ => follows_need _

end Program

namespace Operation

variable {course : Course Session}

theorem follows_value {activity : Activity Value} (h : Follows course (Program.act activity)) :
    Follows course (value activity) :=
  h.bind fun _ => follows_pure _

theorem follows_done {activity : Activity Unit} (h : Follows course (Program.act activity)) :
    Follows course (done activity) :=
  h.bind fun _ => follows_pure _

theorem follows_ofTypes {α : Type} (result : Except TypeFault α) :
    Follows course (ofTypes result) := by
  cases result with
  | ok a => exact follows_pure a
  | error cause => exact follows_throw _

end Operation
end Callables
