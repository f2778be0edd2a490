import Callables.Proofs.Linearizing
import Callables.Proofs.Sessions
import Mathlib.Data.List.Destutter
import Mathlib.Data.List.Duplicate

namespace Callables

namespace Linearization

variable {α : Type}

theorem filter_sublist_filterMap {p : α → Bool} {f : α → Option α} {l : List α}
    (kept : ∀ a ∈ l, p a = true → f a = some a) : (l.filter p).Sublist (l.filterMap f) := by
  have whole : (l.filter p).filterMap f = (l.filter p).map id :=
    List.filterMap_eq_map_iff_forall_eq_some.mpr fun a ha =>
      kept a (List.mem_of_mem_filter ha) (List.of_mem_filter ha)
  rw [← List.map_id (l.filter p), ← whole]
  exact List.filter_sublist.filterMap f

section Runs

variable [DecidableEq α] {a : α} {l : List α}

theorem withoutRuns_cons (a : α) (l : List α) :
    withoutRuns (a :: l) = l.destutter' (· ≠ ·) a := by
  induction l generalizing a with
  | nil => rfl
  | cons b l ih =>
    by_cases same : a = b
    · rw [withoutRuns, if_pos same, ih, List.destutter'_cons_neg l (not_not.mpr same), same]
    · rw [withoutRuns, if_neg same, ih, List.destutter'_cons_pos l same]

theorem withoutRuns_eq_destutter (l : List α) : withoutRuns l = l.destutter (· ≠ ·) := by
  cases l with
  | nil => rfl
  | cons a l => exact withoutRuns_cons a l

theorem mem_withoutRuns : a ∈ withoutRuns l ↔ a ∈ l := by
  induction l using withoutRuns.induct with
  | case1 | case2 => rfl
  | case3 x rest ih =>
    rw [withoutRuns, if_pos rfl, ih]
    simp
  | case4 x y rest other ih => rw [withoutRuns, if_neg other, List.mem_cons, ih, ← List.mem_cons]

/-- An element is still repeated exactly if another one stood between two of its places. -/
theorem duplicate_withoutRuns_iff :
    (withoutRuns l).Duplicate a ↔ ∃ b, b ≠ a ∧ [a, b, a].Sublist l := by
  induction l using withoutRuns.induct with
  | case1 => simp [withoutRuns]
  | case2 x => simp [withoutRuns]
  | case3 x rest ih =>
    rw [withoutRuns, if_pos rfl, ih]
    refine exists_congr fun b => and_congr_right fun other => ⟨fun h => h.cons x, fun h => ?_⟩
    -- what differs from the first of two equal elements and follows it follows the second one
    rcases List.cons_sublist_cons'.mp h with inside | ⟨rfl, after⟩
    · exact inside
    · have later := (List.cons_sublist_cons'.mp after).resolve_right fun same => other same.1
      exact later.cons_cons a
  | case4 x y rest other ih =>
    rw [withoutRuns, if_neg other, List.duplicate_cons_iff, ih, mem_withoutRuns]
    constructor
    · rintro (⟨rfl, later⟩ | ⟨b, differs, inside⟩)
      · have behind : x ∈ rest := List.mem_of_ne_of_mem other later
        exact ⟨y, Ne.symm other, ((List.singleton_sublist.mpr behind).cons_cons y).cons_cons x⟩
      · exact ⟨b, differs, inside.cons x⟩
    · rintro ⟨b, differs, inside⟩
      rcases List.cons_sublist_cons'.mp inside with further | ⟨rfl, further⟩
      · exact .inr ⟨b, differs, further⟩
      · exact .inl ⟨rfl, further.subset (List.mem_cons_of_mem b List.mem_cons_self)⟩

end Runs

section Rounds

variable [DecidableEq α] {sequences left : List (List α)} {taken : List α} {head : α}

/-- Some rounds of merging: the elements that they take, and what they leave of the sequences. -/
inductive Rounds : List (List α) → List α → List (List α) → Prop
  | start (sequences : List (List α)) : Rounds sequences [] sequences
  | round {sequences left : List (List α)} {taken : List α} {head : α}
      (found : candidate? sequences = some head)
      (later : Rounds (sequences.map (dropHead head)) taken left) :
      Rounds sequences (head :: taken) left

/-- Merging stands still when every front is behind another one. -/
theorem candidate?_eq_none_iff : candidate? left = none ↔
    ∀ front ∈ left.filterMap List.head?, ∃ s ∈ left, front ∈ s.tail := by
  rw [candidate?, List.find?_eq_none]
  simp only [isFree, List.all_eq_true, not_forall, Bool.not_eq_true', Bool.not_eq_false,
    List.contains_iff_mem, exists_prop]

/-- Merging that fails has come to a standstill, with fronts that are left. -/
theorem exists_rounds_of_merge {fronts : List α} (failed : merge sequences = .error fronts) :
    ∃ taken left, Rounds sequences taken left ∧ candidate? left = none ∧
      left.filterMap List.head? = fronts ∧ fronts ≠ [] := by
  induction places : remaining sequences using Nat.strongRecOn generalizing sequences with
  | ind places ih =>
    cases found : candidate? sequences with
    | some head =>
      rw [merge_of_candidate found] at failed
      have fewer := remaining_dropHead_lt (candidate?_heads found)
      cases rest : merge (sequences.map (dropHead head)) with
      | ok order => simp [rest, Except.map] at failed
      | error fronts' =>
        obtain rfl : fronts' = fronts := by simpa [rest, Except.map] using failed
        obtain ⟨taken, left, later, still⟩ := ih _ (places ▸ fewer) rest rfl
        exact ⟨head :: taken, left, .round found later, still⟩
    | none =>
      rw [merge_of_blocked found] at failed
      split at failed
      · cases failed
      · rename_i nonempty
        obtain rfl := Except.error.inj failed
        exact ⟨[], sequences, .start _, found, rfl, nonempty⟩

/-- Where rounds come to a standstill with fronts that are left, merging fails. -/
theorem Rounds.merge_eq (rounds : Rounds sequences taken left) (still : candidate? left = none)
    (nonempty : left.filterMap List.head? ≠ []) :
    merge sequences = .error (left.filterMap List.head?) := by
  induction rounds with
  | start sequences => rw [merge_of_blocked still, if_neg nonempty]
  | round found _ ih => rw [merge_of_candidate found, ih still nonempty, Except.map]

theorem dropHead_eq_filter (found : candidate? sequences = some head) {s : List α}
    (hs : s ∈ sequences) : dropHead head s = s.filter (· ≠ head) := by
  have absent := head_not_mem_dropHead found hs
  cases s with
  | nil => rfl
  | cons a rest =>
    have kept : (dropHead head (a :: rest)).filter (· ≠ head) = dropHead head (a :: rest) :=
      List.filter_eq_self.mpr fun b hb => by simpa using ne_of_mem_of_not_mem hb absent
    rw [← kept]
    by_cases front : a = head <;> simp [dropHead, front]

/-- Of every sequence, rounds leave what they have not taken. -/
theorem Rounds.left_eq (rounds : Rounds sequences taken left) :
    left = sequences.map (List.filter (· ∉ taken)) := by
  induction rounds with
  | start sequences =>
    have whole : List.filter (· ∉ []) = (id : List α → List α) := by
      funext s
      simp
    rw [whole, List.map_id]
  | @round sequences left taken head found _ ih =>
    rw [ih, List.map_map]
    refine List.map_congr_left fun s hs => ?_
    rw [Function.comp_apply, dropHead_eq_filter found hs, List.filter_filter]
    simp [Bool.and_comm]

/-- A round does not change the order of what it does not take. -/
theorem sublist_dropHead_of_ne {a b : α} {s : List α} (other : head ≠ a)
    (inside : [a, b].Sublist s) : [a, b].Sublist (dropHead head s) := by
  cases s with
  | nil => cases inside
  | cons x rest =>
    by_cases front : x = head
    · rw [dropHead, if_pos front]
      refine (List.cons_sublist_cons'.mp inside).resolve_right fun h => other ?_
      rw [h.1, front]
    · rw [dropHead, if_neg front]
      exact inside

theorem candidate?_ne {a b : α} (found : candidate? sequences = some head)
    (inside : ∃ s ∈ sequences, [a, b].Sublist s) : head ≠ b := by
  rintro rfl
  obtain ⟨s, hs, inside⟩ := inside
  exact candidate?_free found hs (inside.tail.subset List.mem_cons_self)

/-- Two elements that are behind each other are never taken. -/
theorem Rounds.notMem_taken (rounds : Rounds sequences taken left) {a b : α}
    (before : ∃ s ∈ sequences, [a, b].Sublist s) (after : ∃ s ∈ sequences, [b, a].Sublist s) :
    a ∉ taken ∧ b ∉ taken := by
  induction rounds with
  | start => simp
  | @round sequences left taken head found _ ih =>
    have first := candidate?_ne found after
    have second := candidate?_ne found before
    obtain ⟨s, hs, before⟩ := before
    obtain ⟨t, ht, after⟩ := after
    obtain ⟨apart, apart'⟩ := ih
      ⟨_, List.mem_map_of_mem hs, sublist_dropHead_of_ne first before⟩
      ⟨_, List.mem_map_of_mem ht, sublist_dropHead_of_ne second after⟩
    exact ⟨List.not_mem_cons_of_ne_of_not_mem first.symm apart,
      List.not_mem_cons_of_ne_of_not_mem second.symm apart'⟩

end Rounds

end Linearization

namespace Types

open Linearization

variable {types : Types} {bases taken : List TypeId} {left : List (List TypeId)}

def frontNames (types : Types) (left : List (List TypeId)) : List String :=
  (left.filterMap List.head?).map fun t => (types.info t).name

theorem mem_frontNames {name : String} : name ∈ types.frontNames left ↔
    ∃ t, (types.info t).name = name ∧ ∃ s ∈ left, s.head? = some t := by
  simp only [frontNames, List.mem_map, List.mem_filterMap, and_comm]

section Standstill

variable (rounds : Rounds (types.sequences bases) taken left)
include rounds

/-- What is behind a type in front is behind it in a sequence as it was given. -/
theorem exists_before {s : List TypeId} (hs : s ∈ left) {t : TypeId} (behind : t ∈ s.tail) :
    ∃ u, s.head? = some u ∧ ∃ order ∈ types.sequences bases, [u, t].Sublist order := by
  cases s with
  | nil => cases behind
  | cons u rest =>
    rw [rounds.left_eq] at hs
    obtain ⟨order, given, filtered⟩ := List.mem_map.mp hs
    have inside : [u, t].Sublist (u :: rest) := (List.singleton_sublist.mpr behind).cons_cons u
    exact ⟨u, rfl, order, given, inside.trans (filtered ▸ List.filter_sublist)⟩

variable (labelled : ∀ b ∈ bases, (types.info b).id = b)
include labelled

/-- A base that is left is in front of its own sequence, and the first one of those that are left
is also in front of the list of bases. -/
theorem sublist_fronts {first : TypeId} {rest : List TypeId}
    (unplaced : bases.filter (· ∉ taken) = first :: rest) :
    (first :: rest ++ [first]).Sublist (left.filterMap List.head?) := by
  rw [rounds.left_eq, sequences, List.map_append, List.filterMap_append, List.filterMap_map,
    List.filterMap_map, List.map_singleton, List.filterMap_cons, unplaced]
  refine List.Sublist.append ?_ (List.Sublist.refl _)
  rw [← unplaced]
  refine filter_sublist_filterMap fun b base untaken => ?_
  simp only [Function.comp_apply, TypeInfo.linearization, labelled b base]
  rw [List.filter_cons_of_pos (p := (· ∉ taken)) untaken, List.head?_cons]

/-- If another base is left besides the first one, it is in front of its own sequence, which stands
between the two sequences that the first one is in front of. -/
theorem duplicate_of_unplaced {first other : TypeId}
    (found : bases.find? (· ∉ taken) = some first) (base : other ∈ bases) (untaken : other ∉ taken)
    (apart : (types.info other).name ≠ (types.info first).name) :
    (types.blockedNames (left.filterMap List.head?)).Duplicate (types.info first).name := by
  obtain ⟨rest, unplaced⟩ := List.head?_eq_some_iff.mp (List.head?_filter.trans found)
  have among : other ∈ first :: rest :=
    unplaced ▸ List.mem_filter.mpr ⟨base, by simpa using untaken⟩
  have later : other ∈ rest :=
    List.mem_of_ne_of_mem (ne_of_apply_ne (fun t => (types.info t).name) apart) among
  have between : [first, other, first].Sublist (first :: rest ++ [first]) :=
    ((List.singleton_sublist.mpr later).append (List.Sublist.refl [first])).cons_cons first
  have inside := (between.trans (sublist_fronts rounds labelled unplaced)).map
    fun t => (types.info t).name
  exact duplicate_withoutRuns_iff.mpr ⟨_, apart, inside⟩

/-- A type and a subtype of it that comes later among the bases are left: each has to come before
the other one. -/
theorem notMem_taken_of_misplaced {super sub : TypeId} (misplaced : [super, sub].Sublist bases)
    (derived : super ∈ (types.info sub).ancestors) :
    super ∉ taken ∧ sub ∉ taken := by
  have base : sub ∈ bases := misplaced.subset (by simp)
  refine rounds.notMem_taken ⟨bases, ?_, misplaced⟩ ⟨(types.info sub).linearization, ?_, ?_⟩
  · exact List.mem_append_right _ List.mem_cons_self
  · exact List.mem_append_left _ (List.mem_map_of_mem base)
  · rw [TypeInfo.linearization, labelled sub base]
    exact (List.singleton_sublist.mpr derived).cons_cons sub

theorem not_nodup_of_misplaced {super sub : TypeId} (misplaced : [super, sub].Sublist bases)
    (derived : super ∈ (types.info sub).ancestors)
    (apart : (types.info super).name ≠ (types.info sub).name) :
    ¬(types.blockedNames (left.filterMap List.head?)).Nodup := by
  obtain ⟨superLeft, subLeft⟩ := notMem_taken_of_misplaced rounds labelled misplaced derived
  have superBase : super ∈ bases := misplaced.subset (by simp)
  have subBase : sub ∈ bases := misplaced.subset (by simp)
  obtain ⟨first, found⟩ : ∃ first, bases.find? (· ∉ taken) = some first :=
    Option.isSome_iff_exists.mp (List.find?_isSome.mpr ⟨super, superBase, by simpa using superLeft⟩)
  -- the first base that is left cannot have both names
  by_cases same : (types.info super).name = (types.info first).name
  · have other : (types.info sub).name ≠ (types.info first).name := same ▸ apart.symm
    exact (duplicate_of_unplaced rounds labelled found subBase subLeft other).not_nodup
  · exact (duplicate_of_unplaced rounds labelled found superBase superLeft same).not_nodup

end Standstill

/-- How a conflict between the orders of bases is reported, after rounds that have taken some types
and have left the rest of every sequence. -/
structure Conflict (types : Types) (bases : List TypeId) (names : List String)
    (taken : List TypeId) (left : List (List TypeId)) : Prop where
  rounds : Rounds (types.sequences bases) taken left
  rest : left = (types.sequences bases).map (List.filter (· ∉ taken))
  /-- Every type in front of a sequence is behind the front of some sequence, and so it was in one
  of the sequences that were given. -/
  blocked : ∀ s ∈ left, ∀ t, s.head? = some t → ∃ s' ∈ left, t ∈ s'.tail ∧
    ∃ u, s'.head? = some u ∧ ∃ order ∈ types.sequences bases, [u, t].Sublist order
  /-- The names are those of the types in front, and there are any. -/
  named : ∀ name, name ∈ names ↔ ∃ t, (types.info t).name = name ∧ ∃ s ∈ left, s.head? = some t
  nonempty : names ≠ []
  /-- They stand in the order of the sequences, and only a name that has just been given is not
  given again. -/
  listed : names = (types.frontNames left).destutter (· ≠ ·)
  /-- A name is repeated exactly if a type of another name is in front between two sequences with
  types of this name. -/
  repeated : ∀ name, names.Duplicate name ↔
    ∃ other, other ≠ name ∧ [name, other, name].Sublist (types.frontNames left)
  /-- Where bases of more than one name are left, the name of the first one is repeated. Types that
  are registered bear the numbers under which they are found. -/
  unplaced : (∀ b ∈ bases, (types.info b).id = b) →
    ∀ first, bases.find? (· ∉ taken) = some first → ∀ other ∈ bases, other ∉ taken →
      (types.info other).name ≠ (types.info first).name → names.Duplicate (types.info first).name
  /-- So it is whenever a type stands among the bases before a subtype of its own. -/
  misplaced : (∀ b ∈ bases, (types.info b).id = b) → ∀ super sub, [super, sub].Sublist bases →
    super ∈ (types.info sub).ancestors → (types.info super).name ≠ (types.info sub).name →
      ¬names.Nodup

/-- What rounds leave when they come to a standstill is a conflict. -/
theorem conflict_of_rounds (rounds : Rounds (types.sequences bases) taken left)
    (still : candidate? left = none) (nonempty : left.filterMap List.head? ≠ []) :
    types.Conflict bases (types.blockedNames (left.filterMap List.head?)) taken left := by
  constructor
  case rounds => exact rounds
  case rest => exact rounds.left_eq
  case blocked =>
    intro s hs t front
    obtain ⟨s', hs', behind⟩ :=
      candidate?_eq_none_iff.mp still t (List.mem_filterMap.mpr ⟨s, hs, front⟩)
    exact ⟨s', hs', behind, exists_before rounds hs' behind⟩
  case named => exact fun name => mem_withoutRuns.trans mem_frontNames
  case nonempty =>
    obtain ⟨t, ht⟩ := List.exists_mem_of_ne_nil _ nonempty
    exact List.ne_nil_of_mem (mem_withoutRuns.mpr (List.mem_map_of_mem ht))
  case listed => exact withoutRuns_eq_destutter _
  case repeated => exact fun name => duplicate_withoutRuns_iff
  case unplaced => exact fun labelled _ found _ => duplicate_of_unplaced rounds labelled found
  case misplaced => exact fun labelled _ _ => not_nodup_of_misplaced rounds labelled

namespace Conflict

variable {names : List String}

theorem still (conflict : types.Conflict bases names taken left) : candidate? left = none := by
  refine candidate?_eq_none_iff.mpr fun t front => ?_
  obtain ⟨s, hs, front⟩ := List.mem_filterMap.mp front
  obtain ⟨s', hs', behind, -⟩ := conflict.blocked s hs t front
  exact ⟨s', hs', behind⟩

theorem fronts_ne_nil (conflict : types.Conflict bases names taken left) :
    left.filterMap List.head? ≠ [] := by
  intro none
  refine conflict.nonempty ?_
  rw [conflict.listed, frontNames, none]
  rfl

end Conflict

/-- A conflict names all types that are in front, which are all blocked, and no others. A name
comes again exactly where another one has come between. -/
theorem linearize_eq_error_iff {names : List String} : types.linearize bases = .error names ↔
    ∃ taken left, types.Conflict bases names taken left := by
  rw [linearize_eq]
  constructor
  · intro failed
    cases merged : merge (types.sequences bases) with
    | ok order => simp [merged, Except.mapError] at failed
    | error fronts =>
      obtain rfl : types.blockedNames fronts = names := by
        simpa [merged, Except.mapError] using failed
      obtain ⟨taken, left, rounds, still, rfl, nonempty⟩ := exists_rounds_of_merge merged
      exact ⟨taken, left, conflict_of_rounds rounds still nonempty⟩
  · rintro ⟨taken, left, conflict⟩
    rw [conflict.rounds.merge_eq conflict.still conflict.fronts_ne_nil, Except.mapError,
      blockedNames, withoutRuns_eq_destutter, conflict.listed, frontNames]

end Types

namespace Session

def siblings : Session :=
  (start .standard .empty).run [
    (.newType "A" [], some "A"),
    (.newType "B" [.kept "A"], some "B"),
    (.newType "C" [.kept "A"], some "C")]

theorem siblings_reachable : siblings.Reachable :=
  (Reachable.start _ _).run (by decide +kernel)

/-- One round takes the first base. Of what is left, the second one is in front of the first, second
and last sequence, and the third one of the sequence before the last. -/
theorem siblings_conflict :
    siblings.runtime.types.linearize [⟨258⟩, ⟨256⟩, ⟨257⟩] = .error ["A", "B", "A"] ∧
      (∃ taken left, siblings.runtime.types.Conflict [⟨258⟩, ⟨256⟩, ⟨257⟩] ["A", "B", "A"]
        taken left) ∧
      ∀ b ∈ [⟨258⟩, ⟨256⟩, ⟨257⟩], (siblings.runtime.types.info b).id = b := by
  have failed : siblings.runtime.types.linearize [⟨258⟩, ⟨256⟩, ⟨257⟩] =
      .error ["A", "B", "A"] := by
    decide +kernel
  exact ⟨failed, Types.linearize_eq_error_iff.mp failed, by decide +kernel⟩

/-- A conflict can name a type twice. -/
theorem names_repeat : ¬∀ s : Session, s.Reachable → ∀ bases names,
    (∀ b ∈ bases, s.runtime.types.contains b = true) →
      s.runtime.types.linearize bases = .error names → names.Nodup := by
  intro once
  have failed : siblings.runtime.types.linearize [⟨256⟩, ⟨257⟩] = .error ["A", "B", "A"] := by
    decide +kernel
  have distinct := once siblings siblings_reachable _ _ (by decide +kernel) failed
  revert distinct
  decide

end Session
end Callables
