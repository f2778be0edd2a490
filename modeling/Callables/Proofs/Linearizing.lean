import Callables.Proofs.Hierarchy
import Mathlib.Data.List.Basic

namespace Callables

namespace Linearization

variable {α : Type}

/-- An order that repeats nothing and keeps the order of every sequence. -/
structure Respects (sequences : List (List α)) (order : List α) : Prop where
  nodup : order.Nodup
  kept : ∀ s ∈ sequences, s.Sublist order

section Merging

variable [DecidableEq α] {sequences : List (List α)} {order : List α}

theorem merge_of_candidate {head : α} (found : candidate? sequences = some head) :
    merge sequences = (merge (sequences.map (dropHead head))).map (head :: ·) := by
  rw [merge]
  split
  · rename_i head' found'
    obtain rfl := Option.some.inj (found.symm.trans found')
    rfl
  · rename_i blocked
    rw [found] at blocked
    cases blocked

theorem merge_of_blocked (blocked : candidate? sequences = none) :
    merge sequences =
      if sequences.filterMap List.head? = [] then .ok []
      else .error (sequences.filterMap List.head?) := by
  rw [merge]
  split
  · rename_i found
    rw [blocked] at found
    cases found
  · split
    · rename_i empty
      rw [if_pos empty]
    · rename_i fronts nonempty
      rw [if_neg nonempty]

/-- The first element of the order that a sequence has at all is at the front wherever it occurs,
so it is free. -/
theorem Respects.exists_candidate (h : Respects sequences order) (left : ∃ s ∈ sequences, s ≠ []) :
    ∃ head, candidate? sequences = some head := by
  induction order with
  | nil =>
    obtain ⟨s, hs, nonempty⟩ := left
    exact absurd (List.sublist_nil.mp (h.kept s hs)) nonempty
  | cons a rest ih =>
    obtain ⟨new, distinct⟩ := List.nodup_cons.mp h.nodup
    by_cases fronts : ∃ s ∈ sequences, s.head? = some a
    · have free : isFree sequences a = true := by
        refine List.all_eq_true.mpr fun s hs => ?_
        have behind : s.tail.Sublist rest := (h.kept s hs).tail
        simpa using fun inside => new (behind.subset inside)
      have front : a ∈ sequences.filterMap List.head? := List.mem_filterMap.mpr fronts
      exact Option.isSome_iff_exists.mp (List.find?_isSome.mpr ⟨a, front, free⟩)
    · refine ih ⟨distinct, fun s hs => ?_⟩
      -- the element is at no front, so no sequence uses it
      rcases List.sublist_cons_iff.mp (h.kept s hs) with shorter | ⟨t, rfl, -⟩
      · exact shorter
      · exact absurd ⟨a :: t, hs, rfl⟩ fronts

theorem Respects.dropHead (h : Respects sequences order) (head : α) :
    Respects (sequences.map (dropHead head)) order := by
  refine ⟨h.nodup, fun t ht => ?_⟩
  obtain ⟨s, hs, rfl⟩ := List.mem_map.mp ht
  exact (dropHead_sublist head s).trans (h.kept s hs)

/-- Merging does not get stuck where there is an order: whichever free front it takes, the same
order still respects what is left. -/
theorem Respects.merge_ok (h : Respects sequences order) :
    ∃ merged, merge sequences = .ok merged := by
  induction places : remaining sequences using Nat.strongRecOn generalizing sequences with
  | ind places ih =>
    cases found : candidate? sequences with
    | some head =>
      have fewer := remaining_dropHead_lt (candidate?_heads found)
      obtain ⟨rest, merged⟩ := ih _ (places ▸ fewer) (h.dropHead head) rfl
      exact ⟨head :: rest, by rw [merge_of_candidate found, merged, Except.map]⟩
    | none =>
      have done : ∀ s ∈ sequences, s = [] := by
        refine fun s hs => Classical.byContradiction fun nonempty => ?_
        obtain ⟨head, candidate⟩ := h.exists_candidate ⟨s, hs, nonempty⟩
        rw [found] at candidate
        cases candidate
      have fronts : sequences.filterMap List.head? = [] :=
        List.filterMap_eq_nil_iff.mpr fun s hs => done s hs ▸ rfl
      exact ⟨[], by rw [merge_of_blocked found, if_pos fronts]⟩

theorem respects_of_merge (h : merge sequences = .ok order) : Respects sequences order :=
  ⟨merge_nodup h, fun _ hs => merge_sublist h hs⟩

theorem merge_ok_iff :
    (∃ merged, merge sequences = .ok merged) ↔ ∃ order, Respects sequences order :=
  ⟨fun ⟨merged, h⟩ => ⟨merged, respects_of_merge h⟩, fun ⟨_, h⟩ => h.merge_ok⟩

end Merging

section Loop

def behind? : List α → Option (List α)
  | [] => none
  | _ :: rest => some rest

@[simp] theorem behind?_nil : behind? ([] : List α) = none := rfl

@[simp] theorem behind?_cons (a : α) (s : List α) : behind? (a :: s) = some s := rfl

def unused (sequences : List (List α)) : List (List α) := sequences.filter (!·.isEmpty)

variable {sequences : List (List α)}

@[simp] theorem unused_cons_cons (a : α) (s : List α) :
    unused ((a :: s) :: sequences) = (a :: s) :: unused sequences := rfl

theorem mapM_eq_filterMap {β γ : Type} {f : β → Option γ} {l : List β}
    (there : ∀ x ∈ l, (f x).isSome) : l.mapM f = some (l.filterMap f) := by
  induction l with
  | nil => rfl
  | cons x rest ih =>
    obtain ⟨here, later⟩ := List.forall_mem_cons.mp there
    obtain ⟨y, found⟩ := Option.isSome_iff_exists.mp here
    rw [List.mapM_cons, ih later, List.filterMap_cons_some found, found]
    rfl

theorem filterMap_unused {β : Type} (f : List α → Option β) (nothing : f [] = none) :
    (unused sequences).filterMap f = sequences.filterMap f := by
  induction sequences with
  | nil => rfl
  | cons s rest ih =>
    cases s with
    | nil =>
      rw [List.filterMap_cons_none nothing]
      exact ih
    | cons a s => rw [unused_cons_cons, List.filterMap_cons, List.filterMap_cons, ih]

theorem ne_nil_of_mem_unused {s : List α} (hs : s ∈ unused sequences) : s ≠ [] := by
  simpa using (List.mem_filter.mp hs).2

/-- Of sequences that are not used up, everything is there that is read of a front. -/
theorem mapM_of_live {β : Type} {f : List α → Option β} (live : ∀ s ∈ sequences, s ≠ [])
    (something : ∀ a s, (f (a :: s)).isSome) : sequences.mapM f = some (sequences.filterMap f) := by
  refine mapM_eq_filterMap fun s hs => ?_
  cases s with
  | nil => exact absurd rfl (live [] hs)
  | cons a s => exact something a s

theorem remaining_unused : remaining (unused sequences) = remaining sequences := by
  induction sequences with
  | nil => rfl
  | cons s rest ih =>
    cases s with
    | nil => exact ih
    | cons a s =>
      simp only [unused_cons_cons, remaining, List.flatten_cons, List.length_append] at ih ⊢
      rw [ih]

/-- A condition that holds of the empty sequence can be tested behind the fronts alone. -/
theorem all_behind (test : List α → Bool) (nothing : test [] = true) :
    (sequences.filterMap behind?).all test = sequences.all fun s => test s.tail := by
  induction sequences with
  | nil => rfl
  | cons s rest ih =>
    cases s with
    | nil => rw [List.filterMap_cons_none behind?_nil, ih, List.all_cons, List.tail_nil, nothing,
        Bool.true_and]
    | cons a s => rw [List.filterMap_cons_some (behind?_cons a s), List.all_cons, List.all_cons, ih,
        List.tail_cons]

variable [DecidableEq α]

def advance? (head : α) (s : List α) : Option (List α) := do
  let front ← s[0]?
  return if front = head then s.eraseIdx 0 else s

/-- Merging round by round, with all that a round reads: of each sequence that is not used up the
front and what is behind it. It takes the first front that is behind none and goes on without it.
There is no result if something is read that is not there, or if the rounds are too few. -/
def loop? : Nat → List (List α) → List α → Option (Except (List α) (List α))
  | 0, _, _ => none
  | rounds + 1, sequences, order => do
    let sequences := unused sequences
    if sequences.isEmpty then return .ok order
    let fronts ← sequences.mapM (·[0]?)
    let behind ← sequences.mapM behind?
    match fronts.find? fun front => behind.all (!·.contains front) with
    | none => return .error fronts
    | some next => loop? rounds (← sequences.mapM (advance? next)) (order ++ [next])

theorem candidate?_eq : candidate? sequences = (sequences.filterMap List.head?).find? fun front =>
    (sequences.filterMap behind?).all (!·.contains front) := by
  unfold candidate?
  congr 1
  funext front
  exact (all_behind (fun s => !s.contains front) rfl).symm

theorem candidate?_unused : candidate? (unused sequences) = candidate? sequences := by
  rw [candidate?_eq, candidate?_eq, filterMap_unused List.head? rfl, filterMap_unused behind? rfl]

theorem unused_map_dropHead (head : α) :
    unused ((unused sequences).map (dropHead head)) = unused (sequences.map (dropHead head)) := by
  induction sequences with
  | nil => rfl
  | cons s rest ih =>
    cases s with
    | nil => exact ih
    | cons a s =>
      rw [unused_cons_cons, List.map_cons, List.map_cons]
      cases dropHead head (a :: s) with
      | nil => exact ih
      | cons b t => rw [unused_cons_cons, unused_cons_cons, ih]

theorem merge_unused : merge (unused sequences) = merge sequences := by
  induction places : remaining sequences using Nat.strongRecOn generalizing sequences with
  | ind places ih =>
    cases found : candidate? sequences with
    | some head =>
      have found' := candidate?_unused.trans found
      have fewer := remaining_dropHead_lt (candidate?_heads found)
      have fewer' := remaining_dropHead_lt (candidate?_heads found')
      rw [remaining_unused] at fewer'
      have rest : merge ((unused sequences).map (dropHead head)) =
          merge (sequences.map (dropHead head)) := calc
        _ = merge (unused ((unused sequences).map (dropHead head))) :=
          (ih _ (places ▸ fewer') rfl).symm
        _ = merge (unused (sequences.map (dropHead head))) := by rw [unused_map_dropHead]
        _ = _ := ih _ (places ▸ fewer) rfl
      rw [merge_of_candidate found, merge_of_candidate found', rest]
    | none =>
      rw [merge_of_blocked found, merge_of_blocked (candidate?_unused.trans found),
        filterMap_unused List.head? rfl]

theorem advance?_cons (head a : α) (s : List α) :
    advance? head (a :: s) = some (dropHead head (a :: s)) := rfl

theorem mapM_advance? (live : ∀ s ∈ sequences, s ≠ []) (head : α) :
    sequences.mapM (advance? head) = some (sequences.map (dropHead head)) := by
  rw [mapM_of_live live fun _ _ => rfl]
  refine congrArg some (List.filterMap_eq_map_iff_forall_eq_some.mpr fun s hs => ?_)
  cases s with
  | nil => exact absurd rfl (live [] hs)
  | cons a s => exact advance?_cons head a s

theorem loop?_succ (rounds : Nat) (sequences : List (List α)) (order : List α) :
    loop? (rounds + 1) sequences order =
      if (unused sequences).isEmpty then some (.ok order)
      else match candidate? (unused sequences) with
        | none => some (.error ((unused sequences).filterMap List.head?))
        | some head => loop? rounds ((unused sequences).map (dropHead head)) (order ++ [head]) := by
  have live : ∀ s ∈ unused sequences, s ≠ [] := fun _ hs => ne_nil_of_mem_unused hs
  rw [loop?]
  generalize unused sequences = sequences at live
  have fronts : sequences.mapM (·[0]?) = some (sequences.filterMap List.head?) := by
    rw [mapM_of_live live fun _ _ => rfl]
    simp only [List.head?_eq_getElem?]
  have behind := mapM_of_live (f := behind?) live fun _ _ => rfl
  simp only [fronts, behind, Option.bind_eq_bind, Option.bind_some, ← candidate?_eq,
    mapM_advance? live]
  rfl

/-- The rounds merge: there are enough of them if there is one more than there are places. -/
theorem loop?_eq {rounds : Nat} (enough : remaining sequences < rounds) (order : List α) :
    loop? rounds sequences order = some ((merge sequences).map (order ++ ·)) := by
  induction rounds generalizing sequences order with
  | zero => cases enough
  | succ rounds ih =>
    rw [loop?_succ, ← merge_unused]
    rw [← remaining_unused] at enough
    have live : ∀ s ∈ unused sequences, s ≠ [] := fun _ hs => ne_nil_of_mem_unused hs
    cases found : candidate? (unused sequences) with
    | some head =>
      have fewer := remaining_dropHead_lt (candidate?_heads found)
      obtain ⟨s, hs, -⟩ := candidate?_heads found
      have left : ¬(unused sequences).isEmpty := fun empty => by
        rw [List.isEmpty_iff.mp empty] at hs
        cases hs
      rw [if_neg left, merge_of_candidate found]
      refine (ih (Nat.lt_of_lt_of_le fewer (Nat.le_of_lt_succ enough)) _).trans ?_
      cases merge ((unused sequences).map (dropHead head)) <;> simp [Except.map]
    | none =>
      rw [merge_of_blocked found]
      cases left : unused sequences with
      | nil => simp [Except.map]
      | cons s rest =>
        cases s with
        | nil => exact absurd rfl (live [] (left ▸ List.mem_cons_self))
        | cons a s => rfl

/-- Two orders that agree are merged; if they do not, their fronts block each other. -/
example : loop? 9 [[1, 3, 4], [2, 3, 4], [1, 2]] [] = some (.ok [1, 2, 3, 4]) ∧
    loop? 9 [[1, 4], [2, 1, 4], [1, 2]] [] = some (.error [1, 2, 1]) := ⟨rfl, rfl⟩

end Loop

end Linearization

namespace Types

open Linearization

def sequences (types : Types) (bases : List TypeId) : List (List TypeId) :=
  (bases.map fun b => (types.info b).linearization) ++ [bases]

def blockedNames (types : Types) (fronts : List TypeId) : List String :=
  withoutRuns (fronts.map fun t => (types.info t).name)

theorem linearize_eq (types : Types) (bases : List TypeId) :
    types.linearize bases = (merge (types.sequences bases)).mapError types.blockedNames := by
  unfold linearize sequences
  cases merge ((bases.map fun b => (types.info b).linearization) ++ [bases]) <;> rfl

theorem linearize_ok_iff {types : Types} {bases order : List TypeId} :
    types.linearize bases = .ok order ↔ merge (types.sequences bases) = .ok order := by
  rw [linearize_eq]
  cases merge (types.sequences bases) <;> simp [Except.mapError]

/-- Ordering the ancestors of a type with these bases ends, and it fails only if it has to. -/
structure Orders (types : Types) (bases : List TypeId) : Prop where
  /-- There is a round for every place at most, and no round reads what is not there. -/
  ends : ∃ ended, loop? (remaining (types.sequences bases) + 1) (types.sequences bases) [] =
      some ended ∧ types.linearize bases = ended.mapError types.blockedNames
  succeeds : (∃ order, types.linearize bases = .ok order) ↔
    ∃ order, Respects (types.sequences bases) order
  respects : ∀ order, types.linearize bases = .ok order → Respects (types.sequences bases) order
  members : ∀ order, types.linearize bases = .ok order →
    ∀ t, t ∈ order ↔ ∃ s ∈ types.sequences bases, t ∈ s
  fails : (¬∃ order, Respects (types.sequences bases) order) →
    ∃ names, types.linearize bases = .error names

theorem linearize_orders (types : Types) (bases : List TypeId) : types.Orders bases where
  ends := by
    refine ⟨merge (types.sequences bases), ?_, types.linearize_eq bases⟩
    rw [loop?_eq (Nat.lt_succ_self _)]
    cases merge (types.sequences bases) <;> rfl
  succeeds := by simp only [linearize_ok_iff, merge_ok_iff]
  respects _ found := respects_of_merge (linearize_ok_iff.mp found)
  members _ found _ := mem_merge (linearize_ok_iff.mp found)
  fails := by
    intro impossible
    cases found : types.linearize bases with
    | error names => exact ⟨names, rfl⟩
    | ok order => exact absurd ⟨order, respects_of_merge (linearize_ok_iff.mp found)⟩ impossible

end Types
end Callables
