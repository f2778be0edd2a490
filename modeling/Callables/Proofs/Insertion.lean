import Callables.Proofs.Attributes
import Callables.Proofs.Fixing

namespace Callables

namespace Relocation

/-- Leaves a place free: what was there and above moves up by one. -/
def skip (free : Ref) : Relocation where
  place r := if r < free then r else r + 1
  mono := by
    intro a b h
    by_cases hb : b < free
    · rw [if_pos hb, if_pos (Nat.lt_trans h hb)]
      exact h
    · rw [if_neg hb]
      split
      · exact Nat.lt_succ_of_lt h
      · exact Nat.succ_lt_succ h

def FixesHeap (ρ : Relocation) (rt : Runtime) : Prop :=
  ∀ r o, rt.heap.get? r = some o → ρ.place r = r

theorem skip_fixesHeap (rt : Runtime) : (skip rt.heap.nextRef).FixesHeap rt := by
  intro r o ho
  exact if_pos (Heap.lt_size_of_get? ho)

theorem FixesHeap.fixes {ρ : Relocation} {rt : Runtime} (fixes : ρ.FixesHeap rt)
    {values : List Value} (known : rt.KnowsAll values) : ρ.Fixes values := by
  intro v hv
  cases v with
  | object r =>
    obtain ⟨o, ho⟩ := known _ hv
    exact congrArg Value.object (fixes r o ho)
  | none | bool | int | float | text | type => rfl

end Relocation

namespace Runtime.Sound

variable {ρ : Relocation} {rt : Runtime}

/-- Another heap that has the same objects, all where they were. -/
theorem relocated (sound : rt.Sound) (fixes : ρ.FixesHeap rt) {heap : Heap} {ledger : Ledger}
    (same : ∀ r, heap.get? (ρ.place r) = rt.heap.get? r)
    (next : ∀ n, ρ.place (rt.heap.nextRef + n) = heap.nextRef + n) :
    ρ.Relocated rt { rt with heap, ledger } := by
  refine ⟨rfl, ?_, ?_, next, rfl, rfl, rfl⟩
  · intro id
    cases ht : rt.types.get? id with
    | none => rfl
    | some t =>
      have attributes : ρ.typeInfo t = t := by
        rw [Relocation.typeInfo, (fixes.fixes (sound.attributes ht)).dict]
      exact congrArg some attributes.symm
  · intro r
    apply (same r).trans
    cases ho : rt.heap.get? r with
    | none => rfl
    | some o => exact congrArg some (fixes.fixes (sound.live ho).references).object.symm

/-- One more object on the heap does not matter to what was there. -/
theorem relocated_push (sound : rt.Sound) (o : Object) (ledger : Ledger) :
    (Relocation.skip rt.heap.nextRef).Relocated rt
      { rt with heap := rt.heap.push o, ledger } := by
  refine sound.relocated (Relocation.skip_fixesHeap rt) (fun r => ?_) fun n => ?_
  · rw [Heap.get?_push]
    by_cases hr : r < rt.heap.nextRef
    · have moved : (Relocation.skip rt.heap.nextRef).place r = r := if_pos hr
      rw [moved, if_neg (Nat.ne_of_lt hr)]
    · have moved : (Relocation.skip rt.heap.nextRef).place r = r + 1 := if_neg hr
      have beyond := Nat.le_of_not_lt hr
      have above : ∀ other, rt.heap.nextRef ≤ other → rt.heap.get? other = none := by
        intro other ho
        cases found : rt.heap.get? other with
        | none => rfl
        | some _ => exact absurd (Heap.lt_size_of_get? found) (Nat.not_lt.mpr ho)
      rw [moved, if_neg (Nat.ne_of_gt (Nat.lt_succ_of_le beyond)), above r beyond,
        above (r + 1) (Nat.le_succ_of_le beyond)]
  · have moved : (Relocation.skip rt.heap.nextRef).place (rt.heap.nextRef + n) =
        rt.heap.nextRef + n + 1 := if_neg (Nat.not_lt.mpr (Nat.le_add_right ..))
    rw [moved, Heap.nextRef_push]
    exact Nat.add_right_comm ..

end Runtime.Sound
end Callables
