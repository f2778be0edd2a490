import Callables.Proofs.Assignments
import Callables.Proofs.EditingSteps
import Callables.Proofs.Positions

namespace Callables

open Dict (Edit)

inductive DictRequest where
  | make (pairs : List (String × Value))
  | edit (dict : Ref) (e : Edit Value)
  | copy (dict : Ref)

/-- What was done to each dict that was made in a run. -/
abbrev Journal := Ref → Option (List (Edit Value))

namespace DictRequest

def act : DictRequest → Activity (Option Value)
  | .make pairs => return some (← Activity.allocate (.dict (.ofList pairs)))
  | .edit dict (.set key value) => do
    Activity.setInDict dict key value
    return none
  | .edit dict (.erase key) => Activity.eraseInDict dict key
  | .copy dict => do
    match (← get).heap.get? dict with
    | some (.dict entries) => return some (← Activity.allocate (.dict entries))
    | _ => return none

/-- Records a request. A copy has the history of the dict that it is a copy of. -/
def record (rt : Runtime) (journal : Journal) : DictRequest → Journal
  | .make pairs => Function.update journal rt.heap.nextRef (some (Dict.settings pairs))
  | .edit dict e => Function.update journal dict ((journal dict).map (· ++ [e]))
  | .copy dict => Function.update journal rt.heap.nextRef (journal dict)

def serve (state : Runtime × Journal) (request : DictRequest) : Runtime × Journal :=
  ((request.act.run state.1).2, request.record state.1 state.2)

def serveAll (rt : Runtime) (requests : List DictRequest) : Runtime × Journal :=
  requests.foldl serve (rt, fun _ => none)

def subject? : DictRequest → Option Ref
  | .edit dict _ => some dict
  | .make _ | .copy _ => none

section Acting

variable {rt : Runtime} {dict : Ref} {d : Dict Value}

theorem run_make (pairs : List (String × Value)) : (make pairs).act.run rt =
    (.ok (some (.object rt.heap.nextRef)), { rt with
      heap := rt.heap.push (.dict (.ofList pairs))
      ledger := rt.ledger.push (.create (.dict (.ofList pairs))) }) := rfl

theorem run_copy (found : rt.heap.get? dict = some (.dict d)) : (copy dict).act.run rt =
    (.ok (some (.object rt.heap.nextRef)), { rt with
      heap := rt.heap.push (.dict d)
      ledger := rt.ledger.push (.create (.dict d)) }) := by
  rw [act, Activity.run_get, found]
  rfl

theorem run_edit (found : rt.heap.get? dict = some (.dict d)) (e : Edit Value) :
    ∃ ledger, (edit dict e).act.run rt =
      (.ok (match e with | .set _ _ => none | .erase key => d.get? key),
        { rt with heap := rt.heap.set dict (.dict (d.edit e)), ledger }) := by
  cases e with
  | set key value =>
    rw [act, run_bind, Activity.run_setInDict found]
    exact ⟨_, rfl⟩
  | erase key =>
    let taken := { rt with ledger := rt.ledger.push (.take (d.get? key).toList) }
    have there : taken.heap.get? dict = some (.dict d) := found
    have take : (Activity.take (d.get? key).toList).run rt = (.ok (), taken) := rfl
    rw [act, Activity.eraseInDict, Activity.run_get, found]
    dsimp only
    rw [run_bind, take]
    dsimp only
    rw [run_bind, Activity.run_store there]
    exact ⟨_, rfl⟩

theorem run_edit_of_plain (plain : ∀ d, rt.heap.get? dict ≠ some (.dict d)) (e : Edit Value) :
    ((edit dict e).act.run rt).2 = rt := by
  cases e with
  | set key value =>
    have quiet : (Activity.setInDict dict key value).run rt = (.ok (), rt) := by
      rw [Activity.setInDict, Activity.run_get]
      split
      · rename_i d found
        exact absurd found (plain d)
      · rfl
    rw [act, run_bind, quiet]
    rfl
  | erase key =>
    rw [act, Activity.eraseInDict, Activity.run_get]
    split
    · rename_i d found
      exact absurd found (plain d)
    · rfl

theorem run_copy_of_plain (plain : ∀ d, rt.heap.get? dict ≠ some (.dict d)) :
    ((copy dict).act.run rt).2 = rt := by
  rw [act, Activity.run_get]
  split
  · rename_i d found
    exact absurd found (plain d)
  · rfl

theorem get?_act {request : DictRequest} {r : Ref} {o : Object} (other : request.subject? ≠ some r)
    (found : rt.heap.get? r = some o) : (request.act.run rt).2.heap.get? r = some o := by
  cases request with
  | make pairs => exact Heap.get?_push_of_some _ found
  | edit dict e =>
    have different : r ≠ dict := fun same => other (same ▸ rfl)
    by_cases there : ∃ d, rt.heap.get? dict = some (.dict d)
    · obtain ⟨d, there⟩ := there
      obtain ⟨ledger, ran⟩ := run_edit there e
      rw [ran]
      exact (Heap.get?_set_of_ne _ _ different).trans found
    · rw [run_edit_of_plain (not_exists.mp there)]
      exact found
  | copy dict =>
    by_cases there : ∃ d, rt.heap.get? dict = some (.dict d)
    · obtain ⟨d, there⟩ := there
      rw [run_copy there]
      exact Heap.get?_push_of_some _ found
    · rw [run_copy_of_plain (not_exists.mp there)]
      exact found

end Acting

def Accounts (state : Runtime × Journal) : Prop :=
  ∀ dict history, state.2 dict = some history →
    state.1.heap.get? dict = some (.dict (Dict.ofHistory history))

theorem Accounts.serve {state : Runtime × Journal} (accounts : Accounts state)
    (request : DictRequest) : Accounts (serve state request) := by
  obtain ⟨rt, journal⟩ := state
  intro dict history recorded
  cases request with
  | make pairs =>
    by_cases new : dict = rt.heap.nextRef
    · subst new
      simp only [DictRequest.serve, record, Function.update_self, Option.some.injEq] at recorded
      subst recorded
      rw [Dict.ofHistory_settings]
      simp only [DictRequest.serve, run_make, Heap.get?_push, if_true]
    · simp only [DictRequest.serve, record, Function.update_of_ne new] at recorded
      exact get?_act (by simp [subject?]) (accounts dict history recorded)
  | edit r e =>
    by_cases same : dict = r
    · subst same
      simp only [DictRequest.serve, record, Function.update_self,
        Option.map_eq_some_iff] at recorded
      obtain ⟨before, recorded, rfl⟩ := recorded
      have found := accounts dict before recorded
      obtain ⟨ledger, ran⟩ := run_edit found e
      simp only [DictRequest.serve, ran]
      rw [Dict.ofHistory_append_singleton]
      exact Heap.get?_set_self _ (Heap.lt_size_of_get? found)
    · simp only [DictRequest.serve, record, Function.update_of_ne same] at recorded
      exact get?_act (by simpa [subject?] using Ne.symm same) (accounts dict history recorded)
  | copy r =>
    by_cases new : dict = rt.heap.nextRef
    · subst new
      simp only [DictRequest.serve, record, Function.update_self] at recorded
      have found := accounts r history recorded
      simp only [DictRequest.serve, run_copy found, Heap.get?_push, if_true]
    · simp only [DictRequest.serve, record, Function.update_of_ne new] at recorded
      exact get?_act (by simp [subject?]) (accounts dict history recorded)

theorem accounts_serveAll (rt : Runtime) (requests : List DictRequest) :
    Accounts (serveAll rt requests) := by
  induction requests using List.reverseRecOn with
  | nil => exact fun _ _ recorded => by cases recorded
  | append_singleton requests request ih =>
    rw [serveAll, List.foldl_append]
    exact ih.serve request

structure Ordered (state : Runtime × Journal) : Prop where
  tells : ∀ dict history, state.2 dict = some history →
    ∃ d, state.1.heap.get? dict = some (.dict d) ∧ d.Tells history
  /-- Kept with the positions of its keys, a dict of the same history has the same entries, and all
  positions are right. -/
  indexed : ∀ dict history d, state.2 dict = some history →
    state.1.heap.get? dict = some (.dict d) →
    ∃ s, Indexed.ofHistory? history = some s ∧ s.Stores d ∧
      (∀ key, s.get? key = some (d.get? key)) ∧
      ∀ key, (s.erase? key).map Prod.fst = some (d.get? key)
  makes : ∀ pairs, ((make pairs).act.run state.1).1 = .ok (some (.object state.1.heap.nextRef)) ∧
    (serve state (.make pairs)).2 state.1.heap.nextRef = some (Dict.settings pairs)
  removes : ∀ dict d key, state.1.heap.get? dict = some (.dict d) →
    ((edit dict (.erase key)).act.run state.1).1 = .ok (d.get? key) ∧
    ∃ d', ((edit dict (.erase key)).act.run state.1).2.heap.get? dict = some (.dict d') ∧
      d'.keys = d.keys.filter (· != key)
  copies : ∀ dict d, state.1.heap.get? dict = some (.dict d) →
    ((copy dict).act.run state.1).1 = .ok (some (.object state.1.heap.nextRef)) ∧
    ((copy dict).act.run state.1).2.heap.get? state.1.heap.nextRef = some (.dict d) ∧
    dict ≠ state.1.heap.nextRef ∧
    (serve state (.copy dict)).2 state.1.heap.nextRef = state.2 dict
  apart : ∀ request r o, subject? request ≠ some r → state.1.heap.get? r = some o →
    (request.act.run state.1).2.heap.get? r = some o

theorem ordered_serveAll (rt : Runtime) (requests : List DictRequest) :
    Ordered (serveAll rt requests) := by
  have accounts := accounts_serveAll rt requests
  generalize serveAll rt requests = state at accounts
  obtain ⟨rt, journal⟩ := state
  refine ⟨?_, ?_, ?_, ?_, ?_, ?_⟩
  · intro dict history recorded
    exact ⟨_, accounts dict history recorded, Dict.tells_ofHistory history⟩
  · intro dict history d recorded found
    obtain rfl : Dict.ofHistory history = d :=
      Object.dict.inj (Option.some.inj ((accounts dict history recorded).symm.trans found))
    obtain ⟨s, made, stores⟩ := Indexed.ofHistory?_stores history
    refine ⟨s, made, stores, stores.get?_eq, fun key => ?_⟩
    obtain ⟨s', erased, -⟩ := stores.erase?_stores key
    rw [erased]
    rfl
  · intro pairs
    exact ⟨rfl, Function.update_self ..⟩
  · intro dict d key found
    obtain ⟨ledger, ran⟩ := run_edit found (.erase key)
    rw [ran]
    exact ⟨rfl, d.erase key, Heap.get?_set_self _ (Heap.lt_size_of_get? found), d.keys_erase key⟩
  · intro dict d found
    refine ⟨by rw [run_copy found], ?_, Nat.ne_of_lt (Heap.lt_size_of_get? found),
      Function.update_self ..⟩
    rw [run_copy found]
    exact (Heap.get?_push ..).trans (if_pos rfl)
  · exact fun request r o other found => get?_act other found

/-- The operations of a program on dicts carry out requests, to the dict that the operand stands
for. -/
structure Carried (s : Session) : Prop where
  makes : ∀ {pairs values s₁}, (Program.readPairs pairs).run s = (.ok values, s₁) →
    ((Operation.make (.dict pairs)).run.run s).2 =
      { s₁ with runtime := ((make values).act.run s₁.runtime).2 }
  sets : ∀ {operand value dict d v s₁ s₂} (key : String),
    (Program.readDict operand).run s = (.ok (dict, d), s₁) →
    (Program.read value).run s₁ = (.ok v, s₂) →
      ((Operation.setEntry operand key value).run.run s).2 =
        { s₂ with runtime := ((edit dict (.set key v)).act.run s₂.runtime).2 }
  erases : ∀ {operand dict d s₁} (key : String),
    (Program.readDict operand).run s = (.ok (dict, d), s₁) →
      (Operation.eraseEntry operand key).run.run s =
        ((((edit dict (.erase key)).act.run s₁.runtime).1.mapError .failed).map .optional,
          { s₁ with runtime := ((edit dict (.erase key)).act.run s₁.runtime).2 })
  reads : ∀ {operand dict d s₁} (key : String),
    (Program.readDict operand).run s = (.ok (dict, d), s₁) →
      (Operation.entryOf operand key).run.run s = (.ok (.optional (d.get? key)), s₁)
  copies : ∀ {operand dict d s₁}, (Program.readDict operand).run s = (.ok (dict, d), s₁) →
    ((Operation.copyDict operand).run.run s).2 =
      { s₁ with runtime := ((copy dict).act.run s₁.runtime).2 }

section Operating

variable {s s₁ s₂ : Session} {operand : Operand} {dict : Ref} {d : Dict Value}

theorem run_makeDict {pairs : List (String × Operand)} {values : List (String × Value)}
    (read : (Program.readPairs pairs).run s = (.ok values, s₁)) :
    ((Operation.run (.make (.dict pairs))).run s).2 =
      { s₁ with runtime := ((make values).act.run s₁.runtime).2 } := by
  have made : (Program.read (.dict pairs)).run s =
      (.ok (.object s₁.runtime.heap.nextRef),
        { s₁ with runtime := ((make values).act.run s₁.runtime).2 }) := by
    rw [Program.read, run_bind, read]
    rfl
  rw [Operation.run, run_bind, made]
  rfl

theorem run_setEntry (read : (Program.readDict operand).run s = (.ok (dict, d), s₁))
    {value : Operand} {v : Value} (readValue : (Program.read value).run s₁ = (.ok v, s₂))
    (key : String) : ((Operation.run (.setEntry operand key value)).run s).2 =
      { s₂ with runtime := ((edit dict (.set key v)).act.run s₂.runtime).2 } := by
  rw [Operation.run, run_bind, read]
  dsimp only
  rw [run_bind, readValue]
  dsimp only
  rw [Operation.done, run_bind, Program.run_act, act, run_bind]
  rcases (Activity.setInDict dict key v).run s₂.runtime with ⟨_ | _, rt⟩ <;> rfl

theorem run_eraseEntry (read : (Program.readDict operand).run s = (.ok (dict, d), s₁))
    (key : String) : (Operation.run (.eraseEntry operand key)).run s =
      ((((edit dict (.erase key)).act.run s₁.runtime).1.mapError .failed).map .optional,
        { s₁ with runtime := ((edit dict (.erase key)).act.run s₁.runtime).2 }) := by
  rw [Operation.run, run_bind, read]
  dsimp only
  rw [run_bind, Program.run_act, act]
  rcases (Activity.eraseInDict dict key).run s₁.runtime with ⟨_ | _, rt⟩ <;> rfl

theorem run_entryOf (read : (Program.readDict operand).run s = (.ok (dict, d), s₁))
    (key : String) : (Operation.run (.entryOf operand key)).run s =
      (.ok (.optional (d.get? key)), s₁) := by
  rw [Operation.run, run_bind, read]
  rfl

theorem run_copyDict (read : (Program.readDict operand).run s = (.ok (dict, d), s₁)) :
    ((Operation.run (.copyDict operand)).run s).2 =
      { s₁ with runtime := ((copy dict).act.run s₁.runtime).2 } := by
  obtain ⟨o, found, view⟩ := Program.readObject_found read
  obtain rfl := Object.dict?_eq_some.mp view
  rw [Operation.run, run_bind, read, run_copy found]
  rfl

end Operating

/-- A run of requests keeps the order of all dicts, and requests are what programs ask for. -/
theorem dicts_ordered (rt : Runtime) (requests : List DictRequest) :
    Ordered (serveAll rt requests) ∧ ∀ s : Session, Carried s :=
  ⟨ordered_serveAll rt requests, fun _ => ⟨run_makeDict,
    fun key read readValue => run_setEntry read readValue key,
    fun key read => run_eraseEntry read key, fun key read => run_entryOf read key, run_copyDict⟩⟩

end DictRequest

end Callables
