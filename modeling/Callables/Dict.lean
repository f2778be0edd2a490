namespace Callables

structure Dict (α : Type) where
  entries : List (String × α)
deriving DecidableEq, Inhabited

namespace Dict

variable {α : Type}

def empty : Dict α := ⟨[]⟩

def get? (d : Dict α) (key : String) : Option α :=
  (d.entries.find? (·.1 == key)).map Prod.snd

def contains (d : Dict α) (key : String) : Bool :=
  d.entries.any (·.1 == key)

def keys (d : Dict α) : List String := d.entries.map Prod.fst

def values (d : Dict α) : List α := d.entries.map Prod.snd

def size (d : Dict α) : Nat := d.entries.length

def isEmpty (d : Dict α) : Bool := d.entries.isEmpty

/-- A present key keeps its place and takes the new value; an absent key is added at the end. -/
def set (d : Dict α) (key : String) (value : α) : Dict α :=
  if d.contains key then
    ⟨d.entries.map fun e => if e.1 == key then (key, value) else e⟩
  else
    ⟨d.entries ++ [(key, value)]⟩

def erase (d : Dict α) (key : String) : Dict α :=
  ⟨d.entries.filter (·.1 != key)⟩

/-- Later pairs overwrite earlier ones of the same key. -/
def ofList (pairs : List (String × α)) : Dict α :=
  pairs.foldl (fun d pair => d.set pair.1 pair.2) empty

@[simp] theorem get?_empty (key : String) : (empty : Dict α).get? key = none := rfl

theorem contains_eq_isSome (d : Dict α) (key : String) :
    d.contains key = (d.get? key).isSome := by
  rw [Bool.eq_iff_iff]
  simp [contains, get?]

theorem contains_iff_mem_keys {d : Dict α} {key : String} :
    d.contains key = true ↔ key ∈ d.keys := by
  simp [contains, keys]

theorem get?_set_self (d : Dict α) (key : String) (value : α) :
    (d.set key value).get? key = some value := by
  obtain ⟨entries⟩ := d
  unfold set get? contains
  split
  · rename_i present
    induction entries with
    | nil => simp at present
    | cons e rest ih =>
      by_cases he : e.1 = key
      · simp [he]
      · have := ih (by simpa [he] using present)
        simpa [List.find?_cons, he] using this
  · rename_i absent
    have : entries.find? (·.1 == key) = none := by
      rw [List.find?_eq_none]
      intro e he
      simp only [List.any_eq_true, not_exists, not_and] at absent
      exact absent e he
    simp [List.find?_append, this]

theorem get?_set_of_ne (d : Dict α) {key other : String} (value : α) (h : other ≠ key) :
    (d.set key value).get? other = d.get? other := by
  obtain ⟨entries⟩ := d
  unfold set get? contains
  split
  · rename_i present
    clear present
    congr 1
    have ho : (key == other) = false := by simpa using Ne.symm h
    induction entries with
    | nil => rfl
    | cons e rest ih =>
      rw [List.map_cons, List.find?_cons, List.find?_cons, ih]
      by_cases he : e.1 = key <;> simp [he, ho]
  · have ho : (key == other) = false := by simpa using Ne.symm h
    simp [List.find?_append, ho]

theorem get?_erase_self (d : Dict α) (key : String) : (d.erase key).get? key = none := by
  simp [erase, get?, List.find?_filter]

theorem get?_erase_of_ne (d : Dict α) {key other : String} (h : other ≠ key) :
    (d.erase key).get? other = d.get? other := by
  unfold erase get?
  rw [List.find?_filter]
  congr 2
  funext e
  by_cases he : e.1 = other
  · simp [he, h]
  · simp [he]

theorem mem_values_of_get? {d : Dict α} {key : String} {value : α}
    (h : d.get? key = some value) : value ∈ d.values := by
  obtain ⟨e, he, rfl⟩ := Option.map_eq_some_iff.mp h
  exact List.mem_map_of_mem (List.mem_of_find?_eq_some he)

theorem mem_values_set {d : Dict α} {key : String} {value v : α}
    (h : v ∈ (d.set key value).values) : v = value ∨ v ∈ d.values := by
  obtain ⟨e, he, rfl⟩ := List.mem_map.mp h
  unfold set at he
  split at he
  · obtain ⟨e', he', rfl⟩ := List.mem_map.mp he
    split
    · exact .inl rfl
    · exact .inr (List.mem_map_of_mem he')
  · rcases List.mem_append.mp he with he | he
    · exact .inr (List.mem_map_of_mem he)
    · exact .inl (by simp [List.mem_singleton.mp he])

theorem mem_values_erase {d : Dict α} {key : String} {v : α}
    (h : v ∈ (d.erase key).values) : v ∈ d.values :=
  (List.filter_sublist.map Prod.snd).subset h

theorem mem_values_foldl_set {pairs : List (String × α)} {d : Dict α} {v : α}
    (h : v ∈ (pairs.foldl (fun d pair => d.set pair.1 pair.2) d).values) :
    v ∈ d.values ∨ v ∈ pairs.map Prod.snd := by
  induction pairs generalizing d with
  | nil => exact .inl h
  | cons pair rest ih =>
    rcases ih h with hv | hv
    · rcases mem_values_set hv with rfl | hv
      · exact .inr (List.mem_cons_self ..)
      · exact .inl hv
    · exact .inr (List.mem_cons_of_mem _ hv)

theorem mem_values_ofList {pairs : List (String × α)} {v : α}
    (h : v ∈ (ofList pairs).values) : v ∈ pairs.map Prod.snd := by
  rcases mem_values_foldl_set h with hv | hv
  · simp [values, empty] at hv
  · exact hv

end Dict
end Callables
