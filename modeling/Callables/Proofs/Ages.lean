import Callables.Proofs.Sessions

namespace Callables

namespace Object

/-- The values that an object is made with and keeps for good. -/
def parts : Object → List Value
  | .tuple items => items
  | .function f => f.receiver.toList ++ f.wrapped?.toList
  | _ => []

variable {o o' : Object}

theorem parts_subset_references : ∀ v ∈ o.parts, v ∈ o.references := by
  cases o with
  | tuple items => exact fun _ hv => hv
  | function f =>
    obtain ⟨_, receiver, _, _, _, kind⟩ := f
    intro v hv
    simp only [parts, List.mem_append, Option.mem_toList] at hv
    simp only [references, Function.commonReferences, Function.ownReferences, List.mem_append,
      Option.mem_toList]
    refine hv.imp .inl fun wrapped => ?_
    cases kind with
    | method wrapped' => exact List.mem_singleton.mpr (Option.some.inj wrapped).symm
    | builtin | defined | native => cases wrapped
  | dict | module | code | ofClass | closure => simp [parts]

theorem Becomes.parts (h : o.Becomes o') : o'.parts = o.parts := by
  cases h with
  | same | dict | ofClass => rfl
  | function alike => simp only [Object.parts, alike.receiver, alike.wrapped]

end Object

/-- Every object is younger than its parts. -/
def Heap.Layered (h : Heap) : Prop :=
  ∀ r o, h.get? r = some o → ∀ s, .object s ∈ o.parts → s < r

namespace Runtime

variable {rt rt' : Runtime}

/-- What a step does to the heap: it adds an object, or exchanges one for what that has become, or
leaves nothing but what was there. -/
theorem Step.heap_cases (step : rt.Step rt') :
    (∀ r o, rt'.heap.get? r = some o → rt.heap.get? r = some o) ∨
      (∃ o, o.Sound rt ∧ rt'.heap = rt.heap.push o) ∨
      ∃ r old new, rt.heap.get? r = some old ∧ old.Becomes new ∧ rt'.heap = rt.heap.set r new := by
  have same (heap : rt'.heap = rt.heap) :
      ∀ r o, rt'.heap.get? r = some o → rt.heap.get? r = some o := fun _ _ found => heap ▸ found
  cases step with
  | change change =>
    cases change with
    | quiet _ _ heap | setAttribute _ _ _ _ _ heap | eraseAttribute _ _ _ _ heap
    | addFlags _ _ _ _ heap => exact .inl (same heap)
    | allocate o sound _ _ heap => exact .inr (.inl ⟨o, sound, heap⟩)
    | replace r old new found becomes _ _ _ heap =>
      exact .inr (.inr ⟨r, old, new, found, becomes, heap⟩)
  | create _ _ _ _ _ heap => exact .inl (same heap)
  | release roots _ _ _ heap =>
    exact .inl fun r o found => (rt.heap.sweep_fair roots).kept (heap ▸ found)

theorem Step.layered (step : rt.Step rt') (h : rt.heap.Layered) : rt'.heap.Layered := by
  rcases step.heap_cases with fewer | ⟨o, sound, heap⟩ | ⟨place, old, new, found, becomes, heap⟩
  · exact fun r o ho => h r o (fewer r o ho)
  · intro r o' ho' s hs
    rw [heap, Heap.get?_push] at ho'
    split at ho'
    · -- the parts of a new object are there already, below the next place
      subst r
      obtain rfl := Option.some.inj ho'
      obtain ⟨part, found⟩ := sound.references _ (Object.parts_subset_references _ hs)
      exact Heap.lt_size_of_get? found
    · exact h r o' ho' s hs
  · intro r o' ho' s hs
    rw [heap] at ho'
    by_cases here : r = place
    · subst r
      rw [Heap.get?_set_self new (Heap.lt_size_of_get? found)] at ho'
      obtain rfl := Option.some.inj ho'
      exact h _ old found s (becomes.parts ▸ hs)
    · rw [Heap.get?_set_of_ne _ new here] at ho'
      exact h r o' ho' s hs

theorem Reaches.layered (reaches : rt.Reaches rt') (h : rt.heap.Layered) : rt'.heap.Layered := by
  induction reaches with
  | refl => exact h
  | tail _ step ih => exact step.layered ih

end Runtime

theorem Session.Reachable.layered {s : Session} (h : s.Reachable) : s.runtime.heap.Layered := by
  induction h with
  | start config entries =>
    intro r o ho
    simp [Session.start, Runtime.start, Heap.get?, Heap.empty] at ho
  | step before operation room label ih =>
    exact (before.sound.step operation room label).2.layered ih

namespace Runtime

theorem Reachable.layered {rt : Runtime} (h : rt.Reachable) : rt.heap.Layered := by
  obtain ⟨s, hs, reaches⟩ := h
  exact reaches.layered hs.layered

end Runtime
end Callables
