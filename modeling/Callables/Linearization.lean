namespace Callables.Linearization

variable {α : Type} [DecidableEq α]

/-- A head is free when it stands in the tail of no sequence. -/
def isFree (sequences : List (List α)) (head : α) : Bool :=
  sequences.all fun s => !s.tail.contains head

def candidate? (sequences : List (List α)) : Option α :=
  (sequences.filterMap List.head?).find? (isFree sequences)

def dropHead (head : α) : List α → List α
  | [] => []
  | x :: rest => if x = head then rest else x :: rest

def remaining (sequences : List (List α)) : Nat :=
  sequences.flatten.length

theorem length_dropHead_le (head : α) (s : List α) : (dropHead head s).length ≤ s.length := by
  cases s with
  | nil => exact Nat.le_refl _
  | cons x rest => by_cases h : x = head <;> simp [dropHead, h]

theorem remaining_dropHead_le (head : α) (sequences : List (List α)) :
    remaining (sequences.map (dropHead head)) ≤ remaining sequences := by
  induction sequences with
  | nil => exact Nat.le_refl _
  | cons s rest ih =>
    have hs := length_dropHead_le head s
    simp only [remaining, List.map_cons, List.flatten_cons, List.length_append] at ih ⊢
    omega

/-- Removing a head that fronts some sequence leaves fewer places. -/
theorem remaining_dropHead_lt {head : α} {sequences : List (List α)}
    (h : ∃ s ∈ sequences, s.head? = some head) :
    remaining (sequences.map (dropHead head)) < remaining sequences := by
  induction sequences with
  | nil => simp at h
  | cons s rest ih =>
    have hs := length_dropHead_le head s
    have hr := remaining_dropHead_le head rest
    simp only [remaining, List.map_cons, List.flatten_cons, List.length_append] at ih hr ⊢
    obtain ⟨t, ht, hh⟩ := h
    rcases List.mem_cons.mp ht with rfl | ht
    · cases t with
      | nil => simp at hh
      | cons x tail =>
        have hx : x = head := by simpa using hh
        subst hx
        simp only [dropHead, if_true, List.length_cons] at hs ⊢
        omega
    · have := ih ⟨t, ht, hh⟩
      omega

theorem candidate?_heads {sequences : List (List α)} {head : α}
    (h : candidate? sequences = some head) : ∃ s ∈ sequences, s.head? = some head := by
  have := List.mem_of_find?_eq_some h
  simpa [List.mem_filterMap] using this

/-- One order that contains every sequence, or the heads left when all of them are blocked. -/
def merge (sequences : List (List α)) : Except (List α) (List α) :=
  match h : candidate? sequences with
  | some head =>
    have := remaining_dropHead_lt (candidate?_heads h)
    (merge (sequences.map (dropHead head))).map (head :: ·)
  | none =>
    match sequences.filterMap List.head? with
    | [] => .ok []
    | heads => .error heads
termination_by remaining sequences

/-- A list without the repetitions that stand side by side. -/
def withoutRuns : List α → List α
  | [] => []
  | [x] => [x]
  | x :: y :: rest => if x = y then withoutRuns (y :: rest) else x :: withoutRuns (y :: rest)

end Callables.Linearization
