import Callables.Table
import Mathlib.Data.Finset.Card
import Mathlib.Data.Finset.Dedup

namespace Callables.Table

def named (table : List Entry) (name : String) : List Entry :=
  table.filter fun e => !isSkipped e && e.name == name

/-- Whether an entry takes the place of what is there under its name. -/
def replaces (entry : Entry) : Bool := entry.flags.has .coexist

section Names

variable (names : Dict Value) (table : List Entry)

/-- The entry that a name stands for in the end, if the table decides about it: the last one that
replaces, or else the first one, if the name was not there before. -/
def winner? (name : String) : Option Entry :=
  match ((named table name).filter replaces).getLast? with
  | some e => some e
  | none => if names.contains name then none else (named table name).head?

/-- The names that were not there before and whose first entry does not replace. -/
def introduced : Finset String :=
  (table.map Entry.name).toFinset.filter fun name =>
    names.contains name = false ∧ (named table name).head?.any (!replaces ·) = true

def count : Nat :=
  table.countP (fun e => !isSkipped e && replaces e) + (introduced names table).card

def provides (name : String) : Bool := names.contains name || !(named table name).isEmpty

def registers (e : Entry) : Bool := !isSkipped e && (replaces e || !provides names table e.name)

end Names

variable {names : Dict Value} {table : List Entry}

theorem named_append (e : Entry) (name : String) :
    named (table ++ [e]) name =
      named table name ++ if !isSkipped e && e.name == name then [e] else [] := by
  simp only [named, List.filter_append, List.filter_singleton, cond_eq_ite]

theorem winner?_eq_of_replaces {name : String} {e : Entry}
    (h : ((named table name).filter replaces).getLast? = some e) :
    winner? names table name = some e := by
  simp [winner?, h]

/-- A name that is there neither before nor in the table has no entry. -/
theorem named_eq_nil_of_not_provides {name : String} (h : provides names table name = false) :
    names.contains name = false ∧ named table name = [] := by
  simpa [provides] using h

/-- The table decides about a name if it was absent and has an entry. -/
theorem provides_eq (name : String) :
    provides names table name = (names.contains name || (winner? names table name).isSome) := by
  unfold provides winner?
  cases hc : names.contains name with
  | true => simp
  | false =>
    cases hn : named table name with
    | nil => simp
    | cons e rest => cases ((e :: rest).filter replaces).getLast? <;> simp

/-- Only a registered entry changes what a name stands for, and only that of its own name. -/
theorem winner?_append (e : Entry) (name : String) :
    winner? names (table ++ [e]) name =
      if registers names table e = true ∧ name = e.name then some e
      else winner? names table name := by
  by_cases mine : (!isSkipped e && e.name == name) = true
  · obtain ⟨kept, rfl⟩ : isSkipped e = false ∧ e.name = name := by simpa using mine
    have all : named (table ++ [e]) e.name = named table e.name ++ [e] := by
      rw [named_append, if_pos mine]
    cases replacing : replaces e with
    | true =>
      rw [if_pos ⟨by simp [registers, kept, replacing], rfl⟩]
      exact winner?_eq_of_replaces (by simp [all, replacing])
    | false =>
      have last : (named (table ++ [e]) e.name).filter replaces =
          (named table e.name).filter replaces := by
        simp [all, replacing]
      cases there : provides names table e.name with
      | true =>
        rw [if_neg (by simp [registers, replacing, there])]
        unfold winner?
        rw [last]
        cases hc : names.contains e.name with
        | true => rfl
        | false =>
          obtain ⟨first, rest, hn⟩ : ∃ first rest, named table e.name = first :: rest :=
            List.exists_cons_of_ne_nil (by simpa [provides, hc] using there)
          simp [all, hn]
      | false =>
        rw [if_pos ⟨by simp [registers, kept, there], rfl⟩]
        obtain ⟨absent, none⟩ := named_eq_nil_of_not_provides there
        unfold winner?
        rw [last]
        simp [all, none, absent]
  · have same : named (table ++ [e]) name = named table name := by
      rw [named_append, if_neg mine, List.append_nil]
    rw [if_neg]
    · unfold winner?
      rw [same]
    · rintro ⟨registered, rfl⟩
      simp only [registers, Bool.and_eq_true] at registered
      simp [registered.1] at mine

theorem mem_introduced {name : String} :
    name ∈ introduced names table ↔ names.contains name = false ∧
      (named table name).head?.any (!replaces ·) = true := by
  unfold introduced
  rw [Finset.mem_filter, and_iff_right_iff_imp]
  rintro ⟨-, first⟩
  cases hn : named table name with
  | nil => simp [hn] at first
  | cons e rest =>
    obtain ⟨here, kept⟩ := List.mem_filter.mp (hn ▸ List.mem_cons_self : e ∈ named table name)
    have same : e.name = name := by simp_all
    simp only [List.mem_toFinset, List.mem_map]
    exact ⟨e, here, same⟩

/-- An entry introduces its name if it is registered without replacing. -/
theorem mem_introduced_append (e : Entry) (name : String) :
    name ∈ introduced names (table ++ [e]) ↔
      name ∈ introduced names table ∨
        registers names table e = true ∧ replaces e = false ∧ name = e.name := by
  rw [mem_introduced, mem_introduced, named_append]
  by_cases mine : (!isSkipped e && e.name == name) = true
  · obtain ⟨kept, rfl⟩ : isSkipped e = false ∧ e.name = name := by simpa using mine
    rw [if_pos mine]
    cases hn : named table e.name with
    | nil =>
      simp only [registers, provides, hn, kept]
      cases names.contains e.name <;> cases hr : replaces e <;> simp [hr]
    | cons first rest =>
      simp only [registers, provides, hn, kept]
      cases hr : replaces e <;> simp
  · rw [if_neg mine, List.append_nil]
    refine (or_iff_left ?_).symm
    rintro ⟨registered, -, rfl⟩
    simp only [registers, Bool.and_eq_true] at registered
    simp [registered.1] at mine

theorem introduced_append (e : Entry) :
    introduced names (table ++ [e]) =
      if registers names table e = true ∧ replaces e = false then
        insert e.name (introduced names table)
      else introduced names table := by
  ext name
  rw [mem_introduced_append]
  split
  · rename_i h
    simp [h, or_comm]
  · rename_i h
    rw [← and_assoc]
    simp [h]

theorem count_append (e : Entry) :
    count names (table ++ [e]) =
      count names table + if registers names table e = true then 1 else 0 := by
  unfold count
  rw [List.countP_append, introduced_append]
  cases skipped : isSkipped e with
  | true => simp [registers, skipped]
  | false =>
    cases replacing : replaces e with
    | true =>
      simp [registers, skipped, replacing]
      omega
    | false =>
      cases there : provides names table e.name with
      | true => simp [registers, skipped, replacing, there]
      | false =>
        obtain ⟨-, none⟩ := named_eq_nil_of_not_provides there
        have new : e.name ∉ introduced names table := by simp [mem_introduced, none]
        simp [registers, skipped, replacing, there, Finset.card_insert_of_notMem new]
        omega

/-- Where all names are there already, only entries that replace are registered. -/
theorem count_of_provided (provided : ∀ name, named table name ≠ [] → names.contains name = true) :
    count names table = table.countP fun e => !isSkipped e && replaces e := by
  have none : introduced names table = ∅ := by
    refine Finset.eq_empty_of_forall_notMem fun name new => ?_
    obtain ⟨absent, first⟩ := mem_introduced.mp new
    have empty : named table name = [] := by
      by_contra h
      simp [provided name h] at absent
    simp [empty] at first
  simp [count, none]

theorem winner?_of_provided (provided : ∀ name, named table name ≠ [] → names.contains name = true)
    {name : String} (keeps : ∀ e ∈ named table name, replaces e = false) :
    winner? names table name = none := by
  have last : (named table name).filter replaces = [] := by simpa using keeps
  unfold winner?
  rw [last]
  by_cases empty : named table name = []
  · simp [empty]
  · simp [provided name empty]

end Callables.Table
