import Callables.Proofs.EditingSteps
import Callables.Proofs.Sessions

namespace Callables

namespace Heap

/-- The object at a place is exchanged for another one that is formed too. -/
theorem Formed.set {h : Heap} {r : Ref} {old new : Object} (all : h.Formed)
    (found : h.get? r = some old) (formed : new.Formed h)
    (dict : ∀ entries, old = .dict entries → ∃ entries', new = .dict entries') :
    (h.set r new).Formed := by
  have dicts {r' : Ref} {entries : Dict Value} (here : h.get? r' = some (.dict entries)) :
      ∃ entries', (h.set r new).get? r' = some (.dict entries') := by
    by_cases hr : r' = r
    · subst hr
      obtain ⟨entries', rfl⟩ := dict entries (Option.some.inj (found.symm.trans here))
      exact ⟨entries', get?_set_self _ (lt_size_of_get? found)⟩
    · exact ⟨entries, (get?_set_of_ne h new hr).trans here⟩
  intro r' o ho
  by_cases hr : r' = r
  · subst hr
    rw [get?_set_self new (lt_size_of_get? found)] at ho
    exact Option.some.inj ho ▸ formed.of_core rfl dicts
  · rw [get?_set_of_ne h new hr] at ho
    exact (all r' o ho).of_core rfl dicts

theorem Formed.sweep {h : Heap} (all : h.Formed) (roots : List Value) :
    (h.sweep roots).heap.Formed := by
  intro r o ho
  obtain ⟨bound, dict⟩ := all r o ((h.sweep_fair roots).kept ho)
  refine ⟨bound, ?_⟩
  rintro name names rfl
  obtain ⟨entries, he⟩ := dict name names rfl
  exact ⟨entries, get?_sweep he (.inr ⟨r, _, ho, by simp [Object.references]⟩)⟩

end Heap

namespace Function

def watched (f : Function) (mark : Int) : Function := { f with watchers := f.watchers ++ [mark] }

end Function

namespace Session

open Program

def registration? (s : Session) : Operation → Option (Ref × Int)
  | .watch function mark =>
    match (readFunction function).run s with
    | (.ok (r, _), _) => some (r, mark)
    | (.error _, _) => none
  | _ => none

theorem readFunction_found {s s' : Session} {operand : Operand} {r : Ref} {f : Function}
    (read : (readFunction operand).run s = (.ok (r, f), s')) :
    s'.runtime.heap.get? r = some (.function f) := by
  obtain ⟨o, there, view⟩ := readObject_found read
  exact Object.function?_eq_some.mp view ▸ there

/-- What an operation does to heap and marks: it edits the heap and leaves the marks as they are, or
it succeeds and besides adds to a callable the mark that it registers. -/
theorem run_editing {liberty : Liberty} (s : Session) (operation : Operation)
    (allowed : (s.overridden? operation).all liberty.covers = true) :
    (s.registration? operation = none ∧ (editing liberty).Leads s (operation.run.run s).2) ∨
      ∃ r mark s' f, s.registration? operation = some (r, mark) ∧
        (∃ a, (operation.run.run s).1 = .ok a) ∧
        (editing liberty).Leads s s' ∧ s'.runtime.heap.get? r = some (.function f) ∧
        (operation.run.run s).2.marks = s'.marks ∧
        (operation.run.run s).2.runtime =
          s'.runtime.storing r (.function f) (.function (f.watched mark)) := by
  cases operation with
  | watch function mark =>
    have read := leads_free (reads_editing.readObject Object.function? function s) liberty
    simp only [registration?]
    rcases hr : (readFunction function).run s with ⟨result, s'⟩
    have run : (Operation.watch function mark).run.run s = _ := run_bind _ _ _
    rw [show (readObject Object.function? function).run s = _ from hr] at read
    rw [hr] at run
    cases result with
    | error e =>
      rw [run]
      exact .inl ⟨rfl, read⟩
    | ok found =>
      obtain ⟨r, f⟩ := found
      have here := readFunction_found hr
      have stored : (Activity.store r (.function (f.watched mark))).run s'.runtime = _ :=
        Activity.run_store here _
      have done : (Operation.watch function mark).run.run s =
          (.ok (.count (f.watched mark).watchers.length), { s' with
            runtime := ((Activity.store r (.function (f.watched mark))).run s'.runtime).2 }) := by
        rw [run]
        change (act (Activity.store r (.function (f.watched mark))) >>= _).run s' = _
        rw [run_bind, run_act, stored]
        rfl
      rw [done, stored]
      exact .inr ⟨r, mark, s', f, rfl, ⟨_, rfl⟩, read, here, rfl, rfl⟩
  | _ => exact .inl ⟨rfl, edits_run rfl allowed⟩

/-- Whatever code is exchanged, an operation builds on the heap, but for the mark that it may
register. -/
theorem run_cases (s : Session) (operation : Operation) :
    (s.registration? operation = none ∧ building.Leads s (operation.run.run s).2) ∨
      ∃ r mark s' f, s.registration? operation = some (r, mark) ∧
        (∃ a, (operation.run.run s).1 = .ok a) ∧
        building.Leads s s' ∧ s'.runtime.heap.get? r = some (.function f) ∧
        (operation.run.run s).2.marks = s'.marks ∧
        (operation.run.run s).2.runtime.heap =
          s'.runtime.heap.set r (.function (f.watched mark)) := by
  rcases s.run_editing operation (s.overridden_everybody operation) with
    ⟨plain, led⟩ | ⟨r, mark, s', f, registered, done, led, here, marks, stored⟩
  · exact .inl ⟨plain, leads_builds led⟩
  · refine .inr ⟨r, mark, s', f, registered, done, leads_builds led, here, marks, ?_⟩
    rw [stored]
    rfl

/-- The ledger tells of all that an operation does, the registration of a watcher included. -/
theorem run_notes (s : Session) (operation : Operation) :
    s.runtime.Notes (operation.run.run s).2.runtime := by
  rcases s.run_editing operation (s.overridden_everybody operation) with
    ⟨-, -, -, notes⟩ | ⟨_, _, s', f, -, -, ⟨-, -, notes⟩, here, -, stored⟩
  · exact notes
  · rw [stored]
    exact notes.trans (.storing here _)

theorem run_formed {s : Session} (all : s.runtime.heap.Formed) (operation : Operation) :
    (operation.run.run s).2.runtime.heap.Formed := by
  rcases s.run_cases operation with ⟨-, builds, -⟩ | ⟨_, _, s', f, -, -, ⟨builds, -⟩, here, -, heap⟩
  · exact builds.formed all
  · have formed := builds.formed all
    rw [heap]
    refine formed.set here (Object.formed_function ?_) (by simp)
    exact (formed _ _ here).bound f rfl

/-- A step that is not malformed settles what its operation leaves. -/
theorem step_cases (s : Session) (operation : Operation) (label : Option String) :
    (operation.run.run s).1 = .error .malformed ∧ (s.step operation label).2 = s ∨
      ∃ after : Session, after.runtime.heap = (operation.run.run s).2.runtime.heap ∧
        after.marks = (operation.run.run s).2.marks ∧
        (s.step operation label).2 = after.settle s := by
  unfold step perform
  rcases operation.run.run s with ⟨stop | outcome, after⟩
  · cases stop with
    | malformed => exact .inl ⟨rfl, rfl⟩
    | failed cause => exact .inr ⟨after, rfl, rfl, rfl⟩
  · right
    dsimp only
    split
    · exact ⟨after.keep _ _, rfl, rfl, rfl⟩
    · exact ⟨after, rfl, rfl, rfl⟩

theorem step_formed {s : Session} (all : s.runtime.heap.Formed) (operation : Operation)
    (label : Option String) : (s.step operation label).2.runtime.heap.Formed := by
  rcases s.step_cases operation label with ⟨-, same⟩ | ⟨after, heap, -, settled⟩
  · rw [same]
    exact all
  · rw [settled]
    have formed : after.runtime.heap.Formed := heap ▸ run_formed all operation
    exact formed.sweep after.roots

theorem Reachable.formed {s : Session} (h : s.Reachable) : s.runtime.heap.Formed := by
  induction h with
  | start config entries =>
    intro r o ho
    simp [Session.start, Runtime.start, Heap.get?, Heap.empty] at ho
  | step _ operation _ label ih => exact step_formed ih operation label

end Session

namespace Runtime

/-- The runtimes between the steps of a session and in the midst of one, as long as nothing is
released. -/
def Arises (rt : Runtime) : Prop :=
  ∃ s : Session, s.Reachable ∧ s.runtime.Changes rt ∧ s.runtime.heap.Builds rt.heap

namespace Arises

variable {rt : Runtime}

theorem of_session {s : Session} (h : s.Reachable) : s.runtime.Arises :=
  ⟨s, h, .refl, .refl _⟩

theorem sound (h : rt.Arises) : rt.Sound := by
  obtain ⟨s, hs, changes, -⟩ := h
  exact hs.sound.runtime.changes changes

theorem formed (h : rt.Arises) : rt.heap.Formed := by
  obtain ⟨s, hs, -, builds⟩ := h
  exact builds.formed hs.formed

theorem run {α : Type} {P : Runtime → α → Prop} {a : Activity α} (h : rt.Arises)
    (safe : Activity.Safe P rt a) (edits : Activity.EditsHeap a) : (a.run rt).2.Arises := by
  obtain ⟨s, hs, changes, built⟩ := h
  exact ⟨s, hs, changes.trans safe.changes, built.trans (edits rt).heap.builds⟩

end Arises
end Runtime
end Callables
