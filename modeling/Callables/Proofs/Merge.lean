import Callables.Linearization

namespace Callables.Linearization

variable {α : Type} [DecidableEq α]

theorem sublist_dropHead (head : α) (s : List α) : s.Sublist (head :: dropHead head s) := by
  cases s with
  | nil => exact List.nil_sublist _
  | cons x rest =>
    by_cases h : x = head
    · simp [dropHead, h]
    · simp [dropHead, h]

theorem dropHead_sublist (head : α) (s : List α) : (dropHead head s).Sublist s := by
  cases s with
  | nil => exact List.Sublist.refl _
  | cons x rest => by_cases hx : x = head <;> simp [dropHead, hx]

theorem mem_of_mem_dropHead {head a : α} {s : List α} (h : a ∈ dropHead head s) : a ∈ s :=
  (dropHead_sublist head s).subset h

theorem candidate?_free {sequences : List (List α)} {head : α}
    (h : candidate? sequences = some head) {s : List α} (hs : s ∈ sequences) : head ∉ s.tail := by
  have free : isFree sequences head = true := List.find?_some (p := isFree sequences) h
  simpa using List.all_eq_true.mp free s hs

theorem head_not_mem_dropHead {sequences : List (List α)} {head : α}
    (h : candidate? sequences = some head) {s : List α} (hs : s ∈ sequences) :
    head ∉ dropHead head s := by
  have hf := candidate?_free h hs
  cases s with
  | nil => simp [dropHead]
  | cons x rest =>
    have hr : head ∉ rest := by simpa using hf
    by_cases hx : x = head
    · simpa [dropHead, hx] using hr
    · simp [dropHead, hx, hr, Ne.symm hx]

/-- A merge that succeeds has taken a candidate and merged the rest, or had nothing to merge. -/
theorem merge_cases {sequences : List (List α)} {order : List α}
    (h : merge sequences = .ok order) :
    (∃ head rest, candidate? sequences = some head ∧
      merge (sequences.map (dropHead head)) = .ok rest ∧ order = head :: rest) ∨
    (order = [] ∧ ∀ s ∈ sequences, s = []) := by
  rw [merge] at h
  split at h
  · rename_i head hc
    left
    cases hm : merge (sequences.map (dropHead head)) with
    | error heads => simp [hm, Except.map] at h
    | ok rest =>
      simp only [hm, Except.map, Except.ok.injEq] at h
      exact ⟨head, rest, hc, hm, h.symm⟩
  · split at h
    · rename_i empty
      right
      refine ⟨by simpa using h.symm, ?_⟩
      intro s hs
      have := List.filterMap_eq_nil_iff.mp empty s hs
      exact List.head?_eq_none_iff.mp this
    · simp at h

theorem merge_sublist {sequences : List (List α)} {order : List α}
    (h : merge sequences = .ok order) {s : List α} (hs : s ∈ sequences) : s.Sublist order := by
  induction order generalizing sequences s with
  | nil =>
    rcases merge_cases h with ⟨_, _, _, _, he⟩ | ⟨_, empty⟩
    · simp at he
    · simp [empty s hs]
  | cons a order ih =>
    rcases merge_cases h with ⟨head, rest, _, hm, he⟩ | ⟨he, _⟩
    · obtain ⟨rfl, rfl⟩ := List.cons.inj he
      have ht := ih hm (List.mem_map_of_mem hs)
      exact (sublist_dropHead a s).trans (ht.cons_cons a)
    · simp at he

theorem exists_mem_of_mem_merge {sequences : List (List α)} {order : List α}
    (h : merge sequences = .ok order) {a : α} (ha : a ∈ order) : ∃ s ∈ sequences, a ∈ s := by
  induction order generalizing sequences with
  | nil => simp at ha
  | cons b order ih =>
    rcases merge_cases h with ⟨head, rest, hc, hm, he⟩ | ⟨he, _⟩
    · obtain ⟨rfl, rfl⟩ := List.cons.inj he
      rcases List.mem_cons.mp ha with rfl | ha
      · obtain ⟨s, hs, hh⟩ := candidate?_heads hc
        exact ⟨s, hs, List.mem_of_mem_head? hh⟩
      · obtain ⟨t, ht, hat⟩ := ih hm ha
        obtain ⟨s, hs, rfl⟩ := List.mem_map.mp ht
        exact ⟨s, hs, mem_of_mem_dropHead hat⟩
    · simp at he

theorem mem_merge {sequences : List (List α)} {order : List α}
    (h : merge sequences = .ok order) {a : α} : a ∈ order ↔ ∃ s ∈ sequences, a ∈ s :=
  ⟨exists_mem_of_mem_merge h, fun ⟨_, hs, ha⟩ => (merge_sublist h hs).subset ha⟩

theorem merge_nodup {sequences : List (List α)} {order : List α}
    (h : merge sequences = .ok order) : order.Nodup := by
  induction order generalizing sequences with
  | nil => exact List.nodup_nil
  | cons a order ih =>
    rcases merge_cases h with ⟨head, rest, hc, hm, he⟩ | ⟨he, _⟩
    · obtain ⟨rfl, rfl⟩ := List.cons.inj he
      refine List.nodup_cons.mpr ⟨?_, ih hm⟩
      intro ha
      obtain ⟨t, ht, hat⟩ := exists_mem_of_mem_merge hm ha
      obtain ⟨s, hs, rfl⟩ := List.mem_map.mp ht
      exact head_not_mem_dropHead hc hs hat
    · simp at he

/-- Where two orders agree, an element that ends the shorter one cannot stand before an element of
it that ends the longer one. -/
theorem getLast_eq_of_sublist {s order : List α} (hs : s.Sublist order) (nodup : order.Nodup)
    {a b : α} (ha : s.getLast? = some a) (hb : order.getLast? = some b) (mem : b ∈ s) : b = a := by
  obtain ⟨rest, rfl⟩ := List.getLast?_eq_some_iff.mp hb
  obtain ⟨front, rfl⟩ := List.getLast?_eq_some_iff.mp ha
  by_cases hne : b = a
  · exact hne
  have hb : b ∈ front := by
    rcases List.mem_append.mp mem with h | h
    · exact h
    · exact absurd (by simpa using h) hne
  -- read backwards, `a` comes first in `s`, so all of `s` lies before `b`
  have hr := hs.reverse
  simp only [List.reverse_append, List.reverse_cons, List.reverse_nil, List.nil_append,
    List.cons_append] at hr
  cases hr with
  | cons _ hr =>
    have hm : b ∈ rest := by simpa using hr.subset (by simp [hb])
    simp only [List.nodup_append, List.mem_singleton] at nodup
    exact absurd rfl (nodup.2.2 b hm b rfl)
  | cons_cons _ _ => exact rfl

end Callables.Linearization
