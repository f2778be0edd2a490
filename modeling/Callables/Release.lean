import Callables.Heap
import Callables.Ledger

namespace Callables

inductive Held
  | value (v : Value)
  | watchers (r : Ref)

namespace Metadata

def references (m : Metadata) : List Value :=
  let objects := [m.code, m.defaults, m.keywordDefaults, m.annotations, m.attributes]
  m.doc :: m.module.toList ++ objects.filterMap (·.map Value.object) ++
    m.globals :: (m.closure.map Value.object).toList

end Metadata

namespace Function

def commonReferences (f : Function) : List Value := f.receiver.toList ++ f.module.toList

def ownReferences (f : Function) : List Value :=
  match f.kind with
  | .builtin => []
  | .defined metadata | .native metadata => metadata.references
  | .method wrapped => [wrapped]

end Function

namespace Object

def references : Object → List Value
  | .tuple items => items
  | .dict entries => entries.values
  | .module _ names => [.object names]
  | .code c => c.body.constants
  | .ofClass _ attributes => attributes.values
  | .closure _ => []
  | .function f => f.commonReferences ++ f.ownReferences

/-- What the object at a place lets go of, in order: of a callable, receiver and module go first,
then the watchers are told, then goes what the kind adds. -/
def held (r : Ref) : Object → List Held
  | .function f =>
    f.commonReferences.map .value ++ (if f.watchers.isEmpty then [] else [.watchers r]) ++
      f.ownReferences.map .value
  | o => o.references.map .value

theorem length_held_le (o : Object) (r : Ref) : (o.held r).length ≤ o.references.length + 1 := by
  cases o with
  | function f =>
    simp only [held, references, List.length_append, List.length_map]
    split <;> simp
    omega
  | _ => simp [held]

end Object

namespace Value

def ref? : Value → Option Ref
  | .object r => some r
  | _ => Option.none

end Value

namespace Heap

/-- A bound on what is left to let go of at a place. -/
def cellWeight : Option Object → Nat
  | none => 0
  | some o => o.references.length + 2

def total (f : Option Object → Nat) : List (Option Object) → Nat
  | [] => 0
  | cell :: rest => f cell + total f rest

def weight (h : Heap) : Nat := total cellWeight h.cells.toList

theorem total_set (f : Option Object → Nat) {cells : List (Option Object)} {r : Nat}
    {old : Option Object} (h : cells[r]? = some old) (new : Option Object) :
    total f (cells.set r new) + f old = total f cells + f new := by
  induction cells generalizing r with
  | nil => simp at h
  | cons cell rest ih =>
    cases r with
    | zero =>
      have hc : cell = old := by simpa using h
      subst hc
      simp only [List.set_cons_zero, total]
      omega
    | succ r =>
      have := ih (by simpa using h)
      simp only [List.set_cons_succ, total]
      omega

theorem getElem?_of_get? {h : Heap} {r : Ref} {o : Object} (found : h.get? r = some o) :
    h.cells.toList[r]? = some (some o) := by
  simpa [get?, Option.join_eq_some_iff] using found

theorem weight_free {h : Heap} {r : Ref} {o : Object} (found : h.get? r = some o) :
    (h.free r).weight + (o.references.length + 2) = h.weight := by
  have := total_set cellWeight (getElem?_of_get? found) none
  simpa [weight, free, cellWeight] using this

def marksAt (h : Heap) (r : Ref) : List Int :=
  ((h.function? (.object r)).map Function.watchers).getD []

end Heap

abbrev Counts := Array Nat

namespace Counts

def gain (counts : Counts) (values : List Value) : Counts :=
  (values.filterMap Value.ref?).foldl (fun counts r => counts.modify r (· + 1)) counts

def lose (counts : Counts) (values : List Value) : Counts :=
  (values.filterMap Value.ref?).foldl (fun counts r => counts.modify r (· - 1)) counts

def gainCell (counts : Counts) : Option Object → Counts
  | some o => counts.gain o.references
  | none => counts

def ofHeap (h : Heap) (roots : List Value) (places : Nat) : Counts :=
  h.cells.foldl gainCell (gain (Array.replicate places 0) roots)

end Counts

structure Sweep where
  heap : Heap
  counts : Counts
  /-- The callables whose watchers have been told. -/
  told : Array Ref

namespace Sweep

/-- Drops references, and everything that loses its last one, depth first. -/
def drop : List Held → Sweep → Sweep
  | [], s => s
  | .watchers r :: rest, s => drop rest { s with told := s.told.push r }
  | .value (.object r) :: rest, s =>
    let left := s.counts.getD r 0 - 1
    let counts := s.counts.setIfInBounds r left
    if left = 0 then
      match h : s.heap.get? r with
      | some o =>
        have := Heap.weight_free h
        have := o.length_held_le r
        drop (o.held r ++ rest) { s with heap := s.heap.free r, counts }
      | none => drop rest { s with counts }
    else drop rest { s with counts }
  | .value _ :: rest, s => drop rest s
termination_by items s => items.length + s.heap.weight
decreasing_by all_goals simp_wf <;> omega

def collect (s : Sweep) (r : Ref) : Sweep :=
  if s.counts.getD r 0 = 0 then
    match s.heap.get? r with
    | some o => drop (o.held r) { s with heap := s.heap.free r }
    | none => s
  else s

/-- Releases all that nothing refers to, beginning with the oldest. -/
def collectAll (s : Sweep) : Sweep := (List.range s.heap.size).foldl collect s

def follow (s : Sweep) : Move → Sweep
  | .take values => { s with counts := s.counts.gain values }
  | .letGo values passed =>
    let s := drop (values.map .value) { s with counts := s.counts.gain passed.toList }
    { s with counts := s.counts.lose passed.toList }
  | .create o => { s with counts := s.counts.gain o.references }
  | .change old new =>
    drop (old.references.map .value) { s with counts := s.counts.gain new.references }

/-- Follows a ledger from the references before it, and then releases what is left over. -/
def replay (h : Heap) (before : Counts) (ledger : Ledger) : Sweep :=
  (ledger.foldl follow ⟨h, before, #[]⟩).collectAll

end Sweep

def Heap.sweep (h : Heap) (roots : List Value) : Sweep :=
  Sweep.collectAll ⟨h, Counts.ofHeap h roots h.size, #[]⟩

end Callables
