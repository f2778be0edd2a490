import Callables.Proofs.Histories
import Mathlib.Logic.Function.Basic

namespace Callables

namespace Dict

variable {α : Type} {d : Dict α} {key : String} {before after : List (String × α)} {old : α}

theorem entries_set (split : d.entries = before ++ (key, old) :: after)
    (hb : key ∉ before.map Prod.fst) (ha : key ∉ after.map Prod.fst) (value : α) :
    (d.set key value).entries = before ++ (key, value) :: after := by
  have there : d.contains key = true := contains_iff_mem_keys.mpr (by simp [keys, split])
  have others {l : List (String × α)} (hl : key ∉ l.map Prod.fst) :
      l.map (fun e => if e.1 == key then (key, value) else e) = l := by
    refine (List.map_congr_left fun e he => ?_).trans (List.map_id l)
    have other : ¬e.1 = key := fun same => hl (same ▸ List.mem_map_of_mem he)
    simp [other]
  rw [set, if_pos there]
  simp only [split, List.map_append, List.map_cons, others hb, others ha, beq_self_eq_true, if_true]

theorem filter_eq_self_of_not_mem {l : List (String × α)} (hl : key ∉ l.map Prod.fst) :
    l.filter (·.1 != key) = l := by
  refine List.filter_eq_self.mpr fun e he => ?_
  have other : ¬e.1 = key := fun same => hl (same ▸ List.mem_map_of_mem he)
  simpa using other

theorem erase_of_not_mem (absent : key ∉ d.keys) : d.erase key = d :=
  congrArg Dict.mk (filter_eq_self_of_not_mem absent)

theorem entries_erase (split : d.entries = before ++ (key, old) :: after)
    (hb : key ∉ before.map Prod.fst) (ha : key ∉ after.map Prod.fst) :
    (d.erase key).entries = before ++ after := by
  rw [erase, split, List.filter_append, List.filter_cons_of_neg (by simp),
    filter_eq_self_of_not_mem hb, filter_eq_self_of_not_mem ha]

end Dict

/-- Entries in order of insertion, and where the entry of a key is. -/
structure Indexed (α : Type) where
  entries : List (String × α)
  position? : String → Option Nat

namespace Indexed

open Dict (Edit)

variable {α : Type}

def empty : Indexed α := ⟨[], fun _ => none⟩

/-- There is no result if the position of the key is not a position of an entry. -/
def get? (s : Indexed α) (key : String) : Option (Option α) :=
  match s.position? key with
  | none => some none
  | some i => s.entries[i]?.map fun e => some e.2

def set? (s : Indexed α) (key : String) (value : α) : Option (Indexed α) :=
  match s.position? key with
  | none => some
      ⟨s.entries ++ [(key, value)], Function.update s.position? key (some s.entries.length)⟩
  | some i => s.entries[i]?.map fun e => { s with entries := s.entries.set i (e.1, value) }

def shift (removed i : Nat) : Nat := if removed < i then i - 1 else i

/-- What was at a position is found at the shifted one. -/
theorem shift_iff {before after : List String} {key other : String} (different : other ≠ key)
    {j : Nat} : (∃ i, (before ++ key :: after)[i]? = some other ∧ shift before.length i = j) ↔
      (before ++ after)[j]? = some other := by
  constructor
  · rintro ⟨i, found, rfl⟩
    grind [shift]
  · intro found
    by_cases front : j < before.length
    · exact ⟨j, by grind, by grind [shift]⟩
    · exact ⟨j + 1, by grind, by grind [shift]⟩

def erase? (s : Indexed α) (key : String) : Option (Option α × Indexed α) :=
  match s.position? key with
  | none => some (none, s)
  | some i => s.entries[i]?.map fun e =>
      (some e.2, ⟨s.entries.eraseIdx i, fun other =>
        (Function.update s.position? key none other).map (shift i)⟩)

def edit? (s : Indexed α) : Edit α → Option (Indexed α)
  | .set key value => s.set? key value
  | .erase key => (s.erase? key).map Prod.snd

def ofHistory? (history : List (Edit α)) : Option (Indexed α) := history.foldlM edit? empty

structure Stores (s : Indexed α) (d : Dict α) : Prop where
  entries : s.entries = d.entries
  position : ∀ key i, s.position? key = some i ↔ d.keys[i]? = some key
  distinct : d.keys.Nodup

theorem stores_empty : Stores (empty : Indexed α) Dict.empty :=
  ⟨rfl, fun _ _ => by simp [empty, Dict.keys, Dict.empty], List.nodup_nil⟩

namespace Stores

variable {s : Indexed α} {d : Dict α} {key : String} {i : Nat}

theorem not_mem_keys (h : s.Stores d) (absent : s.position? key = none) : key ∉ d.keys := by
  intro found
  obtain ⟨i, hi⟩ := List.mem_iff_getElem?.mp found
  rw [(h.position key i).mpr hi] at absent
  cases absent

/-- The position of a key is that of its entry, and no other entry has the key. -/
theorem exists_entry (h : s.Stores d) (present : s.position? key = some i) :
    ∃ before value after, d.entries = before ++ (key, value) :: after ∧ before.length = i ∧
      key ∉ before.map Prod.fst ∧ key ∉ after.map Prod.fst := by
  have found := (h.position key i).mp present
  rw [Dict.keys, List.getElem?_map] at found
  obtain ⟨e, entry, rfl⟩ := Option.map_eq_some_iff.mp found
  obtain ⟨inside, entry⟩ := List.getElem?_eq_some_iff.mp entry
  have split : d.entries = d.entries.take i ++ e :: d.entries.drop (i + 1) := by
    rw [← entry, List.getElem_cons_drop, List.take_append_drop]
  have distinct := h.distinct
  rw [Dict.keys, split, List.map_append, List.map_cons, List.nodup_middle, List.nodup_cons,
    List.mem_append, not_or] at distinct
  exact ⟨_, e.2, _, split, List.length_take_of_le (Nat.le_of_lt inside), distinct.1⟩

theorem get?_eq (h : s.Stores d) (key : String) : s.get? key = some (d.get? key) := by
  unfold get?
  split
  · rename_i absent
    have none : ¬(d.get? key).isSome = true := by
      rw [← Dict.contains_eq_isSome, Dict.contains_iff_mem_keys]
      exact h.not_mem_keys absent
    rw [Option.not_isSome_iff_eq_none.mp none]
  · rename_i present
    obtain ⟨before, value, after, split, rfl, -⟩ := h.exists_entry present
    have found : d.get? key = some value := (Dict.mem_entries_iff h.distinct).mp (by simp [split])
    simp [h.entries, split, found]

theorem set?_stores (h : s.Stores d) (key : String) (value : α) :
    ∃ s', s.set? key value = some s' ∧ s'.Stores (d.set key value) := by
  have distinct := Dict.nodup_keys_edit h.distinct (.set key value)
  rw [Dict.edit] at distinct
  unfold set?
  split
  · rename_i absent
    have new := h.not_mem_keys absent
    have keys := Dict.keys_set_of_not_contains d key value (mt Dict.contains_iff_mem_keys.mp new)
    refine ⟨_, rfl, ?_, fun other i => ?_, distinct⟩
    · rw [Dict.set, if_neg (mt Dict.contains_iff_mem_keys.mp new), h.entries]
    · have positions := h.position other i
      have length : s.entries.length = d.keys.length := by simp [h.entries, Dict.keys]
      rw [keys, length]
      change Function.update s.position? key (some d.keys.length) other = some i ↔ _
      by_cases same : other = key
      · subst same
        rw [Function.update_self]
        grind
      · rw [Function.update_of_ne same]
        grind
  · rename_i present
    obtain ⟨before, old, after, split, rfl, hb, ha⟩ := h.exists_entry present
    have there : d.contains key = true :=
      Dict.contains_iff_mem_keys.mpr (by simp [Dict.keys, split])
    have keys := Dict.keys_set_of_contains d key value there
    exact ⟨{ s with entries := before ++ (key, value) :: after }, by simp [h.entries, split],
      (Dict.entries_set split hb ha value).symm, fun other i => keys ▸ h.position other i, distinct⟩

theorem erase?_stores (h : s.Stores d) (key : String) :
    ∃ s', s.erase? key = some (d.get? key, s') ∧ s'.Stores (d.erase key) := by
  have distinct := Dict.nodup_keys_edit h.distinct (.erase key)
  rw [Dict.edit] at distinct
  have answer := h.get?_eq key
  unfold get? at answer
  unfold erase?
  split
  · rename_i absent
    have new := h.not_mem_keys absent
    rw [absent] at answer
    refine ⟨s, by rw [Option.some.inj answer], ?_⟩
    exact (Dict.erase_of_not_mem new).symm ▸ h
  · rename_i i present
    obtain ⟨before, old, after, split, rfl, hb, ha⟩ := h.exists_entry present
    have found : (d.entries)[before.length]? = some (key, old) := by simp [split]
    simp only [present, h.entries, found, Option.map_some] at answer ⊢
    refine ⟨_, by rw [Option.some.inj answer], ?_, ?_, distinct⟩
    · rw [Dict.entries_erase split hb ha, split,
        List.eraseIdx_append_of_length_le (Nat.le_refl _), Nat.sub_self]
      rfl
    · intro other j
      change (Function.update s.position? key none other).map _ = some j ↔ _
      simp only [Dict.keys, Dict.entries_erase split hb ha, List.map_append]
      by_cases same : other = key
      · subst same
        have gone : other ∉ before.map Prod.fst ++ after.map Prod.fst := by
          rw [List.mem_append, not_or]
          exact ⟨hb, ha⟩
        rw [Function.update_self]
        exact iff_of_false (by simp) fun found => gone (List.mem_of_getElem? found)
      · rw [Function.update_of_ne same, Option.map_eq_some_iff]
        simp only [h.position, Dict.keys, split, List.map_append, List.map_cons]
        rw [← List.length_map Prod.fst, shift_iff same]

theorem edit?_stores (h : s.Stores d) (e : Edit α) :
    ∃ s', s.edit? e = some s' ∧ s'.Stores (d.edit e) := by
  cases e with
  | set key value => exact h.set?_stores key value
  | erase key =>
    obtain ⟨s', erased, stores⟩ := h.erase?_stores key
    exact ⟨s', by rw [edit?, erased]; rfl, stores⟩

end Stores

theorem ofHistory?_stores (history : List (Edit α)) :
    ∃ s, ofHistory? history = some s ∧ s.Stores (Dict.ofHistory history) := by
  induction history using List.reverseRecOn with
  | nil => exact ⟨empty, rfl, stores_empty⟩
  | append_singleton history e ih =>
    obtain ⟨s, made, stores⟩ := ih
    obtain ⟨s', edited, stores'⟩ := stores.edit?_stores e
    refine ⟨s', ?_, Dict.ofHistory_append_singleton history e ▸ stores'⟩
    rw [ofHistory?, List.foldlM_append, ← ofHistory?, made]
    simp [edited]

end Indexed
end Callables
