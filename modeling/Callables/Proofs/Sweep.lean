import Callables.Release

namespace Callables

def Value.uses (values : List Value) (r : Ref) : Nat := (values.filterMap Value.ref?).count r

namespace Value

theorem uses_append (a b : List Value) (r : Ref) : uses (a ++ b) r = uses a r + uses b r := by
  simp [uses, List.filterMap_append]

theorem uses_pos {values : List Value} {r : Ref} (h : .object r ∈ values) : 0 < uses values r :=
  List.count_pos_iff.mpr (List.mem_filterMap.mpr ⟨.object r, h, rfl⟩)

end Value

namespace Heap

def cellUses (r : Ref) : Option Object → Nat
  | none => 0
  | some o => Value.uses o.references r

def uses (h : Heap) (r : Ref) : Nat := total (cellUses r) h.cells.toList

/-- What is left after an object has gone is another one. -/
theorem get?_of_free {h : Heap} {r other : Ref} {o : Object}
    (found : (h.free r).get? other = some o) : other ≠ r ∧ h.get? other = some o := by
  have apart : other ≠ r := by
    intro same
    simp [same, get?_free_self] at found
  exact ⟨apart, (get?_free_of_ne h apart).symm.trans found⟩

theorem uses_free {h : Heap} {place : Ref} {o : Object} (found : h.get? place = some o) (r : Ref) :
    (h.free place).uses r + Value.uses o.references r = h.uses r := by
  have := total_set (cellUses r) (getElem?_of_get? found) none
  simpa [uses, free, cellUses] using this

theorem uses_pos {h : Heap} {place r : Ref} {o : Object} (found : h.get? place = some o)
    (hr : .object r ∈ o.references) : 0 < h.uses r := by
  have := uses_free found r
  have := Value.uses_pos hr
  omega

end Heap

namespace Counts

theorem getD_modify_add (counts : Counts) {place r : Ref} (inside : r < counts.size) :
    (counts.modify place (· + 1)).getD r 0 = counts.getD r 0 + if place = r then 1 else 0 := by
  simp only [Array.getD_eq_getD_getElem?, Array.getElem?_modify]
  split
  · simp [inside]
  · simp

@[simp] theorem size_gain (counts : Counts) (values : List Value) :
    (counts.gain values).size = counts.size := by
  unfold gain
  induction values.filterMap Value.ref? generalizing counts with
  | nil => rfl
  | cons place rest ih => simp [ih]

theorem getD_gain (counts : Counts) (values : List Value) {r : Ref} (inside : r < counts.size) :
    (counts.gain values).getD r 0 = counts.getD r 0 + Value.uses values r := by
  unfold gain Value.uses
  induction values.filterMap Value.ref? generalizing counts with
  | nil => rfl
  | cons place rest ih =>
    rw [List.foldl_cons, ih _ (by simpa using inside), getD_modify_add counts inside,
      List.count_cons]
    simp only [beq_iff_eq]
    omega

theorem getD_lose (counts : Counts) (place r : Ref) :
    (counts.setIfInBounds place (counts.getD place 0 - 1)).getD r 0 =
      if r = place then counts.getD place 0 - 1 else counts.getD r 0 := by
  by_cases hr : r = place
  · subst hr
    by_cases inside : r < counts.size
    · simp [inside]
    · simp [inside]
  · rw [if_neg hr]
    simp [Array.getD_eq_getD_getElem?, Array.getElem?_setIfInBounds_ne (Ne.symm hr)]

theorem getD_foldl_gainCell {counts : Counts} {r : Ref} (cells : List (Option Object))
    (inside : r < counts.size) :
    (cells.foldl gainCell counts).getD r 0 =
      counts.getD r 0 + Heap.total (Heap.cellUses r) cells := by
  induction cells generalizing counts with
  | nil => rfl
  | cons cell rest ih =>
    cases cell with
    | none => simpa [gainCell, Heap.total, Heap.cellUses] using ih inside
    | some o =>
      simp only [List.foldl_cons, Heap.total, Heap.cellUses, gainCell]
      rw [ih (by simpa using inside), getD_gain _ _ inside]
      omega

theorem getD_ofHeap (h : Heap) (roots : List Value) {places : Nat} {r : Ref}
    (inside : r < places) :
    (ofHeap h roots places).getD r 0 = Value.uses roots r + h.uses r := by
  unfold ofHeap Heap.uses
  rw [← Array.foldl_toList, getD_foldl_gainCell _ (by simpa using inside),
    getD_gain _ _ (by simpa using inside)]
  simp [inside]

end Counts

namespace Held

def value? : Held → Option Value
  | .value v => some v
  | .watchers _ => none

theorem filterMap_value? (values : List Value) :
    (values.map Held.value).filterMap value? = values := by
  induction values with
  | nil => rfl
  | cons v rest ih => simp [value?, ih]

end Held

theorem Object.values_held (o : Object) (r : Ref) :
    (o.held r).filterMap Held.value? = o.references := by
  cases o with
  | function f =>
    simp only [held, references, List.filterMap_append, Held.filterMap_value?]
    split <;> simp [Held.value?]
  | _ => exact Held.filterMap_value? _

namespace Sweep

/-- A property of what is still to be let go of, and of the state, that every step of releasing
keeps. -/
structure Inductive (P : List Held → Sweep → Prop) : Prop where
  tell : ∀ {r rest s}, P (.watchers r :: rest) s → P rest { s with told := s.told.push r }
  plain : ∀ {v rest s}, v.ref? = none → P (.value v :: rest) s → P rest s
  lose : ∀ {r rest s}, P (.value (.object r) :: rest) s →
    (s.counts.getD r 0 - 1 ≠ 0 ∨ s.heap.get? r = none) →
    P rest { s with counts := s.counts.setIfInBounds r (s.counts.getD r 0 - 1) }
  release : ∀ {r rest s o}, P (.value (.object r) :: rest) s → s.counts.getD r 0 - 1 = 0 →
    s.heap.get? r = some o →
    P (o.held r ++ rest)
      { s with heap := s.heap.free r, counts := s.counts.setIfInBounds r (s.counts.getD r 0 - 1) }
  collect : ∀ {r s o}, P [] s → s.counts.getD r 0 = 0 → s.heap.get? r = some o →
    P (o.held r) { s with heap := s.heap.free r }

namespace Inductive

variable {P : List Held → Sweep → Prop} {pending : List Held} {s : Sweep}

theorem drop (steps : Inductive P) (h : P pending s) : P [] (drop pending s) := by
  induction pending, s using Sweep.drop.induct with
  | case1 s => simpa [Sweep.drop] using h
  | case2 r rest s ih =>
    rw [Sweep.drop]
    exact ih (steps.tell h)
  | case3 r rest s left counts last o found _ _ ih =>
    rw [Sweep.drop, if_pos last]
    split
    · rename_i o' found'
      obtain rfl := Option.some.inj (found.symm.trans found')
      exact ih (steps.release h last found)
    · rename_i gone
      simp [found] at gone
  | case4 r rest s left counts last gone ih =>
    rw [Sweep.drop, if_pos last]
    split
    · rename_i o found
      simp [found] at gone
    · exact ih (steps.lose h (.inr gone))
  | case5 r rest s left counts more ih =>
    rw [Sweep.drop, if_neg more]
    exact ih (steps.lose h (.inl more))
  | case6 v rest s plain ih =>
    rw [Sweep.drop]
    · refine ih (steps.plain ?_ h)
      cases v with
      | object r => exact absurd rfl (plain r)
      | _ => rfl
    · exact plain

theorem collected (steps : Inductive P) (h : P [] s) (r : Ref) : P [] (s.collect r) := by
  unfold Sweep.collect
  split
  · rename_i unused
    split
    · rename_i o found
      exact steps.drop (steps.collect h unused found)
    · exact h
  · exact h

theorem collectAll (steps : Inductive P) (h : P [] s) : P [] s.collectAll := by
  unfold Sweep.collectAll
  induction List.range s.heap.size generalizing s with
  | nil => exact h
  | cons r rest ih => exact ih (steps.collected h r)

end Inductive

def uses (s : Sweep) (roots : List Value) (pending : List Held) (r : Ref) : Nat :=
  Value.uses roots r + s.heap.uses r + Value.uses (pending.filterMap Held.value?) r

/-- A sweep of a heap on its way: nothing is new, the counts are those of the references that there
are, and to what is gone there is none. -/
structure Fair (h : Heap) (roots : List Value) (pending : List Held) (s : Sweep) : Prop where
  size : s.heap.size = h.size
  kept : ∀ {r o}, s.heap.get? r = some o → h.get? r = some o
  counted : ∀ r, r < h.size → s.counts.getD r 0 = s.uses roots pending r
  gone : ∀ {r o}, h.get? r = some o → s.heap.get? r = none → s.uses roots pending r = 0

namespace Fair

variable {h : Heap} {roots : List Value} {pending : List Held} {s : Sweep}

/-- An object without references gives up its own, which are then to be let go of. -/
theorem free (fair : Fair h roots pending s) {r : Ref} {o : Object}
    (found : s.heap.get? r = some o) (unused : s.counts.getD r 0 = 0) :
    Fair h roots (o.held r ++ pending) { s with heap := s.heap.free r } := by
  have same (x : Ref) : Sweep.uses { s with heap := s.heap.free r } roots (o.held r ++ pending) x =
      s.uses roots pending x := by
    have := Heap.uses_free found x
    simp only [Sweep.uses, List.filterMap_append, Object.values_held, Value.uses_append]
    omega
  refine ⟨?_, ?_, ?_, ?_⟩
  · simpa [Heap.free, Heap.size] using fair.size
  · intro x o' ho
    exact fair.kept (Heap.get?_of_free ho).2
  · intro x hx
    rw [same]
    exact fair.counted x hx
  · intro x o' ho hg
    rw [same]
    by_cases hx : x = r
    · subst hx
      exact (fair.counted x (Heap.lt_size_of_get? ho)).symm.trans unused
    · exact fair.gone ho ((Heap.get?_free_of_ne _ hx).symm.trans hg)

theorem lose {r : Ref} (fair : Fair h roots (.value (.object r) :: pending) s) :
    Fair h roots pending
      { s with counts := s.counts.setIfInBounds r (s.counts.getD r 0 - 1) } := by
  have one (x : Ref) : s.uses roots (.value (.object r) :: pending) x =
      s.uses roots pending x + if r = x then 1 else 0 := by
    have hv : Value.uses (.object r :: pending.filterMap Held.value?) x =
        Value.uses (pending.filterMap Held.value?) x + if r = x then 1 else 0 := by
      simp [Value.uses, Value.ref?, List.count_cons]
    simp only [Sweep.uses, List.filterMap_cons, Held.value?, hv]
    omega
  refine ⟨fair.size, fair.kept, ?_, ?_⟩
  · intro x hx
    have hc := fair.counted x hx
    rw [one] at hc
    change _ = s.uses roots pending x
    rw [Counts.getD_lose]
    by_cases hr : x = r
    · subst hr
      simp only [if_true] at hc ⊢
      omega
    · simp only [if_neg hr, if_neg (Ne.symm hr)] at hc ⊢
      exact hc
  · intro x o ho hg
    have := fair.gone ho hg
    rw [one] at this
    change s.uses roots pending x = 0
    omega

end Fair

theorem fair_inductive (h : Heap) (roots : List Value) : Inductive (Fair h roots) where
  tell fair := ⟨fair.size, fair.kept, fair.counted, fair.gone⟩
  plain {v rest s} noRef fair := by
    have same (r : Ref) : s.uses roots rest r = s.uses roots (.value v :: rest) r := by
      simp [uses, Held.value?, Value.uses, noRef]
    refine ⟨fair.size, fair.kept, ?_, ?_⟩
    · intro r inside
      rw [same]
      exact fair.counted r inside
    · intro r o found freed
      rw [same]
      exact fair.gone found freed
  lose fair _ := fair.lose
  release {r rest s o} fair last found := by
    refine fair.lose.free found ?_
    rw [Counts.getD_lose, if_pos rfl]
    exact last
  collect {r s o} fair unused found := by
    have freed := fair.free found unused
    rwa [List.append_nil] at freed

end Sweep

namespace Heap

theorem sweep_fair (h : Heap) (roots : List Value) : Sweep.Fair h roots [] (h.sweep roots) := by
  refine (Sweep.fair_inductive h roots).collectAll ⟨rfl, fun ho => ho, ?_, ?_⟩
  · intro r hr
    rw [Counts.getD_ofHeap h roots hr]
    simp [Sweep.uses, Value.uses]
  · intro r o ho hg
    simp [ho] at hg

theorem get?_sweep {h : Heap} {roots : List Value} {r : Ref} {o : Object}
    (found : h.get? r = some o)
    (used : .object r ∈ roots ∨
      ∃ place holder, (h.sweep roots).heap.get? place = some holder ∧
        .object r ∈ holder.references) :
    (h.sweep roots).heap.get? r = some o := by
  have fair := h.sweep_fair roots
  cases hs : (h.sweep roots).heap.get? r with
  | some o' => rw [← found, fair.kept hs]
  | none =>
    have hz := fair.gone found hs
    unfold Sweep.uses at hz
    rcases used with hr | ⟨place, holder, hp, hr⟩
    · have := Value.uses_pos hr
      omega
    · have := Heap.uses_pos hp hr
      omega

end Heap
end Callables
