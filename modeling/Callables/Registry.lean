import Callables.Value

namespace Callables

structure Registry (α : Type) where
  entries : List (TypeId × α)
  nextId : TypeId

namespace Registry

variable {α : Type}

def empty : Registry α := ⟨[], .firstHeap⟩

def get? (r : Registry α) (id : TypeId) : Option α :=
  (r.entries.find? (·.1 == id)).map Prod.snd

def contains (r : Registry α) (id : TypeId) : Bool := r.entries.any (·.1 == id)

def size (r : Registry α) : Nat := r.entries.length

def isEmpty (r : Registry α) : Bool := r.entries.isEmpty

def allocate (r : Registry α) : TypeId × Registry α :=
  (r.nextId, { r with nextId := r.nextId.next })

def modify (r : Registry α) (id : TypeId) (f : α → α) : Registry α :=
  { r with entries := r.entries.map fun e => if e.1 = id then (e.1, f e.2) else e }

/-- Puts an element under a number, in place of what was there before. -/
def register (r : Registry α) (id : TypeId) (a : α) : Registry α :=
  if r.contains id then r.modify id fun _ => a
  else { r with entries := r.entries ++ [(id, a)] }

theorem get?_modify (r : Registry α) (id other : TypeId) (f : α → α) :
    (r.modify id f).get? other = if other = id then (r.get? other).map f else r.get? other := by
  have same : (fun e : TypeId × α => (if e.1 = id then (e.1, f e.2) else e).1 == other) =
      fun e => e.1 == other := by
    funext e
    split <;> rfl
  simp only [modify, get?, List.find?_map, Function.comp_def, same]
  cases found : r.entries.find? (·.1 == other) with
  | none => simp
  | some e =>
    have he : e.1 = other := by simpa using List.find?_some found
    by_cases ho : other = id <;> simp [he, ho]

/-- What was registered last under a number is found there. -/
theorem get?_register_self (r : Registry α) (id : TypeId) (a : α) :
    (r.register id a).get? id = some a := by
  unfold register
  split
  · rename_i present
    rw [get?_modify, if_pos rfl]
    obtain ⟨e, he, hi⟩ := List.any_eq_true.mp present
    have : (r.entries.find? (·.1 == id)).isSome := List.find?_isSome.mpr ⟨e, he, hi⟩
    obtain ⟨found, hf⟩ := Option.isSome_iff_exists.mp this
    simp [get?, hf]
  · rename_i absent
    have : r.entries.find? (·.1 == id) = none := by
      rw [List.find?_eq_none]
      intro e he
      simp only [contains, List.any_eq_true, not_exists, not_and] at absent
      exact absent e he
    simp [get?, List.find?_append, this]

theorem get?_register_of_ne (r : Registry α) {id other : TypeId} (a : α) (h : other ≠ id) :
    (r.register id a).get? other = r.get? other := by
  unfold register
  split
  · rw [get?_modify, if_neg h]
  · have ho : (id == other) = false := by simpa using Ne.symm h
    simp [get?, List.find?_append, ho]

@[simp] theorem nextId_register (r : Registry α) (id : TypeId) (a : α) :
    (r.register id a).nextId = r.nextId := by
  unfold register
  split <;> rfl

theorem contains_eq_isSome (r : Registry α) (id : TypeId) :
    r.contains id = (r.get? id).isSome := by
  rw [Bool.eq_iff_iff]
  simp [contains, get?]

theorem contains_of_get? {r : Registry α} {id : TypeId} {a : α} (h : r.get? id = some a) :
    r.contains id = true := by
  simp [contains_eq_isSome, h]

theorem exists_get?_of_contains {r : Registry α} {id : TypeId} (h : r.contains id = true) :
    ∃ a, r.get? id = some a :=
  Option.isSome_iff_exists.mp (contains_eq_isSome r id ▸ h)

theorem contains_register {r : Registry α} {id other : TypeId} {a : α}
    (known : (r.register id a).contains other = true) : other = id ∨ r.contains other = true := by
  by_cases same : other = id
  · exact .inl same
  · obtain ⟨b, found⟩ := exists_get?_of_contains known
    exact .inr (contains_of_get? ((r.get?_register_of_ne a same).symm.trans found))

theorem mem_of_get? {r : Registry α} {id : TypeId} {a : α} (h : r.get? id = some a) :
    (id, a) ∈ r.entries := by
  obtain ⟨e, he, rfl⟩ := Option.map_eq_some_iff.mp h
  have hi : e.1 = id := by simpa using List.find?_some he
  exact hi ▸ List.mem_of_find?_eq_some he

@[simp] theorem size_modify (r : Registry α) (id : TypeId) (f : α → α) :
    (r.modify id f).size = r.size := by
  simp [modify, size]

theorem size_register_of_fresh {r : Registry α} {id : TypeId} (a : α)
    (fresh : r.contains id = false) : (r.register id a).size = r.size + 1 := by
  simp [register, size, fresh]

end Registry
end Callables
