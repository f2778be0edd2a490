import Callables.Proofs.EditingObjects
import Callables.Proofs.Resemblance

namespace Callables

/-- The same but for the metadata of the function at a place, entries of dicts, and what is new. -/
structure Runtime.Leaves (r : Ref) (rt rt' : Runtime) : Prop where
  types : rt'.types = rt.types
  nextText : rt'.nextText = rt.nextText
  builds : rt.heap.Builds rt'.heap
  others : ∀ {place o}, rt.heap.get? place = some o → place ≠ r → o.dict? = none →
    rt'.heap.get? place = some o

namespace Runtime.Leaves

variable {r : Ref} {rt rt' : Runtime} {v : Value}

theorem alike (h : rt.Leaves r rt') (known : rt.Knows v) : rt.Alike rt' v := by
  cases v with
  | object place =>
    obtain ⟨o, ho⟩ := known
    obtain ⟨o', ho', same⟩ := h.builds.old ho
    simp only [Runtime.Alike, Heap.object?, ho, ho', Option.map_some, same]
  | none | bool | int | float | text | type => rfl

theorem resembles (h : rt.Leaves r rt') (sound : rt.Sound) : rt.Resembles rt' where
  types := h.types
  receiver hf hr := h.alike (sound.knows_receiver hf hr)
  wrapped hf hw := h.alike (sound.knows_wrapped hf hw)
  found hl := h.alike (sound.knows_lookup hl)

theorem baseFunction? (h : rt.Leaves r rt') (sound : rt.Sound) (known : rt.Knows v)
    (other : v ≠ .object r) : rt'.baseFunction? v = rt.baseFunction? v := by
  rcases (h.resembles sound).baseFunction? (h.alike known) with ⟨hf, hg⟩ | ⟨f, g, hf, hg, -⟩
  · rw [hf, hg]
  · obtain ⟨place, rfl, here⟩ := Heap.get?_of_function? (function?_of_baseFunction? hf)
    have same := Heap.function?_of_get? (h.others here (fun same => other (same ▸ rfl)) rfl)
    rw [hf, hg, ← function?_of_baseFunction? hg, same]

/-- What has attributes of its own in itself is no dict, and no function either. -/
theorem ownAttributes? (h : rt.Leaves r rt') (known : rt.Knows v) (other : v ≠ .object r) :
    rt'.ownAttributes? v = rt.ownAttributes? v := by
  cases v with
  | object place =>
    obtain ⟨o, ho⟩ := known
    cases plain : o.dict? with
    | none =>
      have there := h.others ho (fun same => other (same ▸ rfl)) plain
      simp only [Runtime.ownAttributes?, Heap.object?, ho, there]
    | some entries =>
      obtain rfl := Object.dict?_eq_some.mp plain
      obtain ⟨entries', ho'⟩ := h.builds.dicts ho
      simp only [Runtime.ownAttributes?, Heap.object?, ho, ho']
  | none | bool | int | float | text | type => rfl

/-- Who is not the function, nor a wrapper of it, answers as before, unless the entry that is read
has become another one. -/
theorem reading (h : rt.Leaves r rt') (sound : rt.Sound) (known : rt.Knows v)
    (other : rt.heap.innermost v ≠ .object r) {name : String}
    (entry : (rt'.heap.entriesAt (rt.attributePlace? v)).get? name =
      (rt.heap.entriesAt (rt.attributePlace? v)).get? name) :
    rt'.reading v name = rt.reading v name :=
  have inner := sound.knows_innermost known
  (h.resembles sound).reading_of_innermost sound (h.alike known)
    ((h.resembles sound).directReading (h.alike inner) (h.baseFunction? sound inner other)
      (h.ownAttributes? inner other) entry)

end Runtime.Leaves
end Callables
