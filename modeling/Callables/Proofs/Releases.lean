import Callables.Proofs.Sweep

namespace Callables

theorem Value.mem_of_uses_pos {values : List Value} {r : Ref} (h : 0 < uses values r) :
    .object r ∈ values := by
  obtain ⟨v, hv, ref⟩ := List.mem_filterMap.mp (List.count_pos_iff.mp h)
  cases v with
  | object place => exact Option.some.inj ref ▸ hv
  | _ => cases ref

namespace Heap

/-- What counts for something together has a part that does. -/
theorem exists_of_total_pos {f : Option Object → Nat} {cells : List (Option Object)}
    (h : 0 < total f cells) :
    ∃ (place : Nat) (cell : Option Object), cells[place]? = some cell ∧ 0 < f cell := by
  induction cells with
  | nil => simp [total] at h
  | cons cell rest ih =>
    by_cases here : 0 < f cell
    · exact ⟨0, cell, rfl, here⟩
    · have later : 0 < total f rest := by
        simp only [total] at h
        omega
      obtain ⟨place, found⟩ := ih later
      exact ⟨place + 1, found⟩

theorem exists_of_uses_pos {h : Heap} {r : Ref} (used : 0 < h.uses r) :
    ∃ place holder, h.get? place = some holder ∧ .object r ∈ holder.references := by
  obtain ⟨place, cell, found, here⟩ := exists_of_total_pos used
  cases cell with
  | none => simp [cellUses] at here
  | some holder =>
    refine ⟨place, holder, ?_, Value.mem_of_uses_pos here⟩
    simpa [get?, Option.join_eq_some_iff] using found

end Heap

namespace Sweep

def Spared (places : List Ref) (s : Sweep) : Prop :=
  ∀ r ∈ places, ∀ o, s.heap.get? r = some o → s.counts.getD r 0 ≠ 0

theorem Spared.free {places : List Ref} {s : Sweep} (h : s.Spared places) (r : Ref) :
    Spared (r :: places) { s with heap := s.heap.free r } := by
  intro x hx o ho
  obtain ⟨apart, before⟩ := Heap.get?_of_free ho
  exact h x (List.mem_of_ne_of_mem apart hx) o before

theorem Spared.mono {places places' : List Ref} {s : Sweep} (h : s.Spared places')
    (sub : places ⊆ places') : s.Spared places :=
  fun r hr => h r (sub hr)

theorem Spared.lose {places : List Ref} {s : Sweep} (h : s.Spared places) {r : Ref}
    (stays : s.counts.getD r 0 - 1 ≠ 0 ∨ s.heap.get? r = none) :
    Spared places { s with counts := s.counts.setIfInBounds r (s.counts.getD r 0 - 1) } := by
  intro x hx o ho
  change (s.counts.setIfInBounds r (s.counts.getD r 0 - 1)).getD x 0 ≠ 0
  rw [Counts.getD_lose]
  split
  · rename_i same
    subst same
    rcases stays with more | gone
    · exact more
    · simp [gone] at ho
  · exact h x hx o ho

theorem spared_inductive (places : List Ref) : Inductive fun _ s => s.Spared places where
  tell h := h
  plain _ h := h
  lose h stays := h.lose stays
  release {r rest s o} h last found := by
    have freed := h.free r
    refine Spared.mono (Spared.lose freed (.inr ?_)) (List.subset_cons_self r places)
    exact Heap.get?_free_self s.heap r
  collect {r s o} h _ _ := (h.free r).mono (List.subset_cons_self r places)

/-- Looking at a place spares what is there only if it has references. -/
theorem Spared.collected {places : List Ref} {s : Sweep} (h : s.Spared places) (r : Ref) :
    (s.collect r).Spared (r :: places) := by
  unfold collect
  have here (used : ∀ o, s.heap.get? r = some o → s.counts.getD r 0 ≠ 0) :
      s.Spared (r :: places) := by
    intro x hx
    rcases List.mem_cons.mp hx with rfl | old
    · exact used
    · exact h x old
  split
  · split
    · exact (spared_inductive (r :: places)).drop (h.free r)
    · rename_i gone
      exact here fun o ho => by simp [gone] at ho
  · rename_i used
    exact here fun _ _ => used

theorem spared_collectAll (s : Sweep) : s.collectAll.Spared (List.range s.heap.size) := by
  have each (looked places : List Ref) (s : Sweep) (h : s.Spared looked) :
      (places.foldl collect s).Spared (places ++ looked) := by
    induction places generalizing looked s with
    | nil => exact h
    | cons r rest ih => exact (ih (r :: looked) _ (h.collected r)).mono (by simp)
  unfold collectAll
  refine (each [] (List.range s.heap.size) s ?_).mono (by simp)
  intro r hr
  cases hr

end Sweep

theorem Heap.referred_of_get?_sweep {h : Heap} {roots : List Value} {r : Ref} {o : Object}
    (found : (h.sweep roots).heap.get? r = some o) :
    .object r ∈ roots ∨
      ∃ place holder, (h.sweep roots).heap.get? place = some holder ∧
        .object r ∈ holder.references := by
  have fair := h.sweep_fair roots
  have inside := lt_size_of_get? (fair.kept found)
  have used : (h.sweep roots).counts.getD r 0 ≠ 0 :=
    Sweep.spared_collectAll _ r (List.mem_range.mpr inside) o found
  rw [fair.counted r inside] at used
  by_cases root : 0 < Value.uses roots r
  · exact .inl (Value.mem_of_uses_pos root)
  · refine .inr (exists_of_uses_pos ?_)
    simp only [Sweep.uses, List.filterMap_nil, Value.uses, List.count_nil] at used root ⊢
    omega

namespace Held

def watched? : Held → Option Ref
  | .watchers r => some r
  | .value _ => none

theorem filterMap_watched? (values : List Value) :
    (values.map Held.value).filterMap watched? = [] := by
  simp [watched?]

end Held

/-- A released callable tells its watchers, if it has any. -/
theorem Heap.watched?_held {h : Heap} {r : Ref} {o : Object} (found : h.get? r = some o) :
    (o.held r).filterMap Held.watched? = if h.marksAt r = [] then [] else [r] := by
  cases o with
  | function f =>
    have marks : h.marksAt r = f.watchers := by
      simp [marksAt, function?, object?, found, Object.function?]
    simp only [Object.held, List.filterMap_append, Held.filterMap_watched?, marks]
    cases f.watchers with
    | nil => rfl
    | cons mark rest => rfl
  | _ =>
    have unmarked : h.marksAt r = [] := by
      simp [marksAt, function?, object?, found, Object.function?]
    rw [if_pos unmarked]
    exact Held.filterMap_watched? _

namespace Sweep

/-- Of the callables of a heap, those with watchers that are gone have been told, or are to be told
next; each of them once. -/
structure Told (h : Heap) (pending : List Held) (s : Sweep) : Prop where
  kept : ∀ {r o}, s.heap.get? r = some o → h.get? r = some o
  nodup : (pending.filterMap Held.watched? ++ s.told.toList).Nodup
  mem : ∀ r, r ∈ pending.filterMap Held.watched? ++ s.told.toList ↔
    h.marksAt r ≠ [] ∧ s.heap.get? r = none

namespace Told

variable {h : Heap} {pending : List Held} {s : Sweep}

theorem start (h : Heap) (counts : Counts) : Told h [] ⟨h, counts, #[]⟩ := by
  refine ⟨fun found => found, List.nodup_nil, fun r => ?_⟩
  have unmarked (gone : h.get? r = none) : h.marksAt r = [] := by
    simp [Heap.marksAt, Heap.function?, Heap.object?, gone]
  constructor
  · intro hr
    cases hr
  · intro ⟨marked, gone⟩
    exact absurd (unmarked gone) marked

theorem of_eq {pending' : List Held} {s' : Sweep} (told : Told h pending s)
    (heap : s'.heap = s.heap) (same : s'.told = s.told)
    (watched : pending'.filterMap Held.watched? = pending.filterMap Held.watched?) :
    Told h pending' s' := by
  obtain ⟨kept, nodup, mem⟩ := told
  rw [← heap] at kept mem
  rw [← same, ← watched] at nodup mem
  exact ⟨kept, nodup, mem⟩

theorem free (told : Told h pending s) {r : Ref} {o : Object} (found : s.heap.get? r = some o) :
    Told h (o.held r ++ pending) { s with heap := s.heap.free r } := by
  have here := Heap.watched?_held (told.kept found)
  have first : r ∉ pending.filterMap Held.watched? ++ s.told.toList := by
    rw [told.mem]
    simp [found]
  have freed (x : Ref) :
      (s.heap.free r).get? x = none ↔ x = r ∨ s.heap.get? x = none := by
    by_cases same : x = r
    · simp [same, Heap.get?_free_self]
    · simp [same, Heap.get?_free_of_ne]
  refine ⟨?_, ?_, ?_⟩
  · intro x o' ho'
    exact told.kept (Heap.get?_of_free ho').2
  · rw [List.filterMap_append, here, List.append_assoc]
    split
    · exact told.nodup
    · exact List.nodup_cons.mpr ⟨first, told.nodup⟩
  · intro x
    rw [List.filterMap_append, here, List.append_assoc, List.mem_append, told.mem, freed]
    by_cases same : x = r
    · subst same
      by_cases unwatched : h.marksAt x = [] <;> simp [unwatched]
    · split <;> simp [same]

end Told

theorem told_inductive (h : Heap) : Inductive (Told h) where
  tell {r rest s} told := by
    obtain ⟨kept, nodup, mem⟩ := told
    have moved : (rest.filterMap Held.watched? ++ (s.told.push r).toList).Perm
        ((Held.watchers r :: rest).filterMap Held.watched? ++ s.told.toList) := by
      simp [Held.watched?, ← List.append_assoc]
    exact ⟨kept, moved.nodup_iff.mpr nodup, fun x => (moved.mem_iff).trans (mem x)⟩
  plain _ told := told.of_eq rfl rfl rfl
  lose told _ := told.of_eq rfl rfl rfl
  release {r rest s o} told _ found := by
    have lost : Told h rest { s with
        counts := s.counts.setIfInBounds r (s.counts.getD r 0 - 1) } := told.of_eq rfl rfl rfl
    exact lost.free found
  collect told _ found := by
    have freed := told.free found
    rwa [List.append_nil] at freed

theorem Told.follow {h : Heap} {s : Sweep} (told : Told h [] s) (move : Move) :
    Told h [] (s.follow move) := by
  cases move with
  | take | create => exact told.of_eq rfl rfl rfl
  | letGo values passed =>
    have dropped : Told h [] (drop (values.map .value) { s with
        counts := s.counts.gain passed.toList }) :=
      (told_inductive h).drop (told.of_eq rfl rfl (Held.filterMap_watched? values))
    exact dropped.of_eq rfl rfl rfl
  | change old new =>
    exact (told_inductive h).drop (told.of_eq rfl rfl (Held.filterMap_watched? _))

theorem told_replay (h : Heap) (before : Counts) (ledger : Ledger) :
    Told h [] (replay h before ledger) := by
  have followed (moves : List Move) (s : Sweep) (told : Told h [] s) :
      Told h [] (moves.foldl follow s) := by
    induction moves generalizing s with
    | nil => exact told
    | cons move rest ih => exact ih _ (told.follow move)
  unfold replay
  rw [← Array.foldl_toList]
  exact (told_inductive h).collectAll (followed _ _ (.start h before))

end Sweep

theorem Heap.told_sweep (h : Heap) (roots : List Value) : Sweep.Told h [] (h.sweep roots) :=
  (Sweep.told_inductive h).collectAll (.start h _)

end Callables
