import Callables.Dict
import Mathlib.Data.List.Nodup
import Mathlib.Data.Set.Card

namespace Callables.Dict

variable {α : Type}

inductive Edit (α : Type) where
  | set (key : String) (value : α)
  | erase (key : String)

def Edit.key : Edit α → String
  | .set key _ => key
  | .erase key => key

def edit (d : Dict α) : Edit α → Dict α
  | .set key value => d.set key value
  | .erase key => d.erase key

def ofHistory (history : List (Edit α)) : Dict α := history.foldl edit empty

def settings (pairs : List (String × α)) : List (Edit α) := pairs.map fun p => .set p.1 p.2

theorem ofHistory_settings (pairs : List (String × α)) :
    ofHistory (settings pairs) = ofList pairs :=
  List.foldl_map

@[simp] theorem ofHistory_append_singleton (history : List (Edit α)) (e : Edit α) :
    ofHistory (history ++ [e]) = (ofHistory history).edit e := by
  simp [ofHistory]

section History

/-- The key was set to the value, and since then nothing was done to the key. -/
def LastSet (history : List (Edit α)) (key : String) (value : α) : Prop :=
  ∃ before after, history = before ++ .set key value :: after ∧ ∀ e ∈ after, e.key ≠ key

/-- The key was set and has not been removed. -/
def Present (history : List (Edit α)) (key : String) : Prop := ∃ value, LastSet history key value

/-- The key came with edit number `n`: it was set while it was absent, and since then it has not
been removed. -/
def Inserted (history : List (Edit α)) (key : String) (n : Nat) : Prop :=
  ∃ before value after, history = before ++ .set key value :: after ∧ before.length = n ∧
    ¬Present before key ∧ .erase key ∉ after

variable {history : List (Edit α)} {e : Edit α} {key : String} {value : α} {n : Nat}

/-- An edit in a history is the newest one or an older one. -/
theorem append_singleton_eq_iff {before after : List (Edit α)} {e' : Edit α} :
    history ++ [e] = before ++ e' :: after ↔
      (history = before ∧ e = e' ∧ after = []) ∨
      ∃ between, after = between ++ [e] ∧ history = before ++ e' :: between := by
  constructor
  · intro h
    rcases List.eq_nil_or_concat after with rfl | ⟨between, newest, rfl⟩
    · obtain ⟨rfl, he⟩ := List.append_inj' h rfl
      exact .inl ⟨rfl, (List.cons.inj he).1, rfl⟩
    · rw [List.concat_eq_append, ← List.cons_append, ← List.append_assoc] at h
      obtain ⟨rfl, he⟩ := List.append_inj' h rfl
      obtain rfl := (List.cons.inj he).1
      exact .inr ⟨between, List.concat_eq_append, rfl⟩
  · rintro (⟨rfl, rfl, rfl⟩ | ⟨between, rfl, rfl⟩)
    · rfl
    · simp

theorem not_lastSet_nil : ¬LastSet ([] : List (Edit α)) key value := by
  rintro ⟨before, after, h, -⟩
  simp at h

theorem lastSet_append : LastSet (history ++ [e]) key value ↔
    e = .set key value ∨ (e.key ≠ key ∧ LastSet history key value) := by
  constructor
  · rintro ⟨before, after, h, others⟩
    rcases append_singleton_eq_iff.mp h with ⟨-, rfl, -⟩ | ⟨between, rfl, rfl⟩
    · exact .inl rfl
    · obtain ⟨older, newest⟩ := List.forall_mem_append.mp others
      exact .inr ⟨newest e List.mem_cons_self, before, between, rfl, older⟩
  · rintro (rfl | ⟨other, before, after, rfl, others⟩)
    · exact ⟨history, [], rfl, by simp⟩
    · exact ⟨before, after ++ [e], by simp,
        List.forall_mem_append.mpr ⟨others, by simpa using other⟩⟩

theorem present_append : Present (history ++ [e]) key ↔
    (∃ value, e = .set key value) ∨ (e.key ≠ key ∧ Present history key) := by
  simp only [Present, lastSet_append, exists_or, exists_and_left]

theorem inserted_append : Inserted (history ++ [e]) key n ↔
    ((∃ value, e = .set key value) ∧ history.length = n ∧ ¬Present history key) ∨
    (e ≠ .erase key ∧ Inserted history key n) := by
  constructor
  · rintro ⟨before, value, after, h, rfl, absent, kept⟩
    rcases append_singleton_eq_iff.mp h with ⟨rfl, rfl, -⟩ | ⟨between, rfl, rfl⟩
    · exact .inl ⟨⟨value, rfl⟩, rfl, absent⟩
    · simp only [List.mem_append, List.mem_singleton, not_or] at kept
      exact .inr ⟨Ne.symm kept.2, before, value, between, rfl, rfl, absent, kept.1⟩
  · rintro (⟨⟨value, rfl⟩, rfl, absent⟩ | ⟨kept, before, value, after, rfl, rfl, absent, older⟩)
    · exact ⟨history, value, [], rfl, rfl, absent, by simp⟩
    · exact ⟨before, value, after ++ [e], by simp, rfl, absent, by simpa [older] using Ne.symm kept⟩

theorem not_inserted_nil : ¬Inserted ([] : List (Edit α)) key n := by
  rintro ⟨before, value, after, h, -⟩
  simp at h

theorem Inserted.lt_length (h : Inserted history key n) : n < history.length := by
  obtain ⟨before, value, after, rfl, rfl, -⟩ := h
  simp

theorem present_iff_inserted : Present history key ↔ ∃ n, Inserted history key n := by
  induction history using List.reverseRecOn with
  | nil => simp [Present, not_lastSet_nil, not_inserted_nil]
  | append_singleton history e ih =>
    simp only [present_append, inserted_append, exists_or, exists_and_left, ← ih]
    cases e with
    | set k value =>
      by_cases same : k = key
      · subst same
        simp [Edit.key, em']
      · simp [Edit.key, same]
    | erase k => simp [Edit.key]

theorem Inserted.unique {m : Nat} (hm : Inserted history key m) (hn : Inserted history key n) :
    m = n := by
  induction history using List.reverseRecOn with
  | nil => exact absurd hm not_inserted_nil
  | append_singleton history e ih =>
    have present {k} (h : Inserted history key k) : Present history key :=
      present_iff_inserted.mpr ⟨k, h⟩
    rcases inserted_append.mp hm with ⟨-, rfl, absent⟩ | ⟨-, hm⟩ <;>
      rcases inserted_append.mp hn with ⟨-, rfl, absent'⟩ | ⟨-, hn⟩
    · rfl
    · exact absurd (present hn) absent
    · exact absurd (present hm) absent'
    · exact ih hm hn

end History

section Keys

variable (d : Dict α) (key : String) (value : α)

theorem keys_set_of_contains (present : d.contains key = true) :
    (d.set key value).keys = d.keys := by
  rw [set, if_pos present]
  simp only [keys, List.map_map]
  refine List.map_congr_left fun e _ => ?_
  by_cases he : e.1 = key <;> simp [he]

theorem keys_set_of_not_contains (absent : ¬d.contains key = true) :
    (d.set key value).keys = d.keys ++ [key] := by
  rw [set, if_neg absent]
  simp [keys]

theorem keys_erase : (d.erase key).keys = d.keys.filter (· != key) := by
  simp only [keys, erase, List.filter_map]
  rfl

end Keys

section Entries

variable {d : Dict α} {key : String} {value : α}

theorem nodup_keys_edit (distinct : d.keys.Nodup) (e : Edit α) : (d.edit e).keys.Nodup := by
  cases e with
  | set key value =>
    by_cases present : d.contains key = true
    · rw [edit, keys_set_of_contains d key value present]
      exact distinct
    · rw [edit, keys_set_of_not_contains d key value present]
      have new : key ∉ d.keys := mt contains_iff_mem_keys.mpr present
      simpa only [List.concat_eq_append] using distinct.concat new
  | erase key =>
    rw [edit, keys_erase]
    exact distinct.filter _

theorem mem_entries_iff (distinct : d.keys.Nodup) :
    (key, value) ∈ d.entries ↔ d.get? key = some value := by
  obtain ⟨entries⟩ := d
  induction entries with
  | nil => simp [get?]
  | cons e rest ih =>
    obtain ⟨new, distinct⟩ := List.nodup_cons.mp distinct
    have ih := ih distinct
    by_cases first : e.1 = key
    · subst first
      have absent : (e.1, value) ∉ rest := fun found => new (List.mem_map.mpr ⟨_, found, rfl⟩)
      simp [get?, absent, Prod.ext_iff, eq_comm]
    · have other : (key, value) ≠ e := fun same => first (same ▸ rfl)
      simpa [get?, first, other] using ih

end Entries

section Told

variable {history : List (Edit α)} {key : String} {value : α}

theorem get?_ofHistory : (ofHistory history).get? key = some value ↔
    LastSet history key value := by
  induction history using List.reverseRecOn with
  | nil => simp [ofHistory, not_lastSet_nil]
  | append_singleton history e ih =>
    rw [ofHistory_append_singleton, lastSet_append, ← ih]
    cases e with
    | set k v =>
      by_cases same : k = key
      · subst same
        simp [edit, Edit.key, get?_set_self]
      · simp [edit, Edit.key, get?_set_of_ne _ v (Ne.symm same), same]
    | erase k =>
      by_cases same : k = key
      · subst same
        simp [edit, Edit.key, get?_erase_self]
      · simp [edit, Edit.key, get?_erase_of_ne _ (Ne.symm same), same]

theorem contains_ofHistory : (ofHistory history).contains key = true ↔ Present history key := by
  simp only [contains_eq_isSome, Option.isSome_iff_exists, get?_ofHistory, Present]

theorem nodup_keys_ofHistory : (ofHistory history).keys.Nodup := by
  induction history using List.reverseRecOn with
  | nil => exact List.nodup_nil
  | append_singleton history e ih =>
    rw [ofHistory_append_singleton]
    exact nodup_keys_edit ih e

def Precedes (history : List (Edit α)) (a b : String) : Prop :=
  ∃ m n, Inserted history a m ∧ Inserted history b n ∧ m < n

theorem Precedes.append {a b : String} {e : Edit α} (h : Precedes history a b)
    (ha : e ≠ .erase a) (hb : e ≠ .erase b) : Precedes (history ++ [e]) a b := by
  obtain ⟨m, n, hm, hn, lt⟩ := h
  exact ⟨m, n, inserted_append.mpr (.inr ⟨ha, hm⟩), inserted_append.mpr (.inr ⟨hb, hn⟩), lt⟩

theorem pairwise_keys_ofHistory : (ofHistory history).keys.Pairwise (Precedes history) := by
  induction history using List.reverseRecOn with
  | nil => exact .nil
  | append_singleton history e ih =>
    rw [ofHistory_append_singleton]
    cases e with
    | set key value =>
      have older : (ofHistory history).keys.Pairwise (Precedes (history ++ [.set key value])) :=
        ih.imp fun h => h.append (by simp) (by simp)
      by_cases present : (ofHistory history).contains key = true
      · rw [edit, keys_set_of_contains _ key value present]
        exact older
      · rw [edit, keys_set_of_not_contains _ key value present]
        refine List.pairwise_append.mpr ⟨older, List.pairwise_singleton .., fun a ha b hb => ?_⟩
        obtain rfl := List.mem_singleton.mp hb
        obtain ⟨m, hm⟩ := present_iff_inserted.mp
          (contains_ofHistory.mp (contains_iff_mem_keys.mpr ha))
        refine ⟨m, history.length, inserted_append.mpr (.inr ⟨by simp, hm⟩), ?_, hm.lt_length⟩
        exact inserted_append.mpr (.inl ⟨⟨value, rfl⟩, rfl, mt contains_ofHistory.mpr present⟩)
    | erase key =>
      have kept {a} (ha : a ∈ (ofHistory history).keys.filter (· != key)) :
          Edit.erase (α := α) key ≠ .erase a := by
        have other : a ≠ key := by simpa using (List.mem_filter.mp ha).2
        exact fun same => other (Edit.erase.inj same).symm
      rw [edit, keys_erase]
      exact (ih.filter _).imp_of_mem fun ha hb h => h.append (kept ha) (kept hb)

theorem size_ofHistory : (ofHistory history).size = {key | Present history key}.ncard := by
  have keys : {key | Present history key} = ((ofHistory history).keys.toFinset : Set String) := by
    ext key
    simp [← contains_ofHistory, contains_iff_mem_keys]
  rw [keys, Set.ncard_coe_finset, List.toFinset_card_of_nodup nodup_keys_ofHistory]
  simp [size, Dict.keys]

/-- A dict tells its history as far as it can be asked about it. -/
structure Tells (history : List (Edit α)) (d : Dict α) : Prop where
  distinct : d.keys.Nodup
  get : ∀ key value, d.get? key = some value ↔ LastSet history key value
  contains : ∀ key, d.contains key = true ↔ Present history key
  items : ∀ key value, (key, value) ∈ d.entries ↔ LastSet history key value
  keys : d.keys = d.entries.map Prod.fst
  order : d.keys.Pairwise (Precedes history)
  once : ∀ key, Present history key ↔ ∃! n, Inserted history key n
  size : d.size = {key | Present history key}.ncard

theorem tells_ofHistory (history : List (Edit α)) : Tells history (ofHistory history) where
  distinct := nodup_keys_ofHistory
  get _ _ := get?_ofHistory
  contains _ := contains_ofHistory
  items _ _ := (mem_entries_iff nodup_keys_ofHistory).trans get?_ofHistory
  keys := rfl
  order := pairwise_keys_ofHistory
  once _ := present_iff_inserted.trans
    ⟨fun ⟨n, hn⟩ => ⟨n, hn, fun _ hm => hm.unique hn⟩, fun ⟨n, hn, _⟩ => ⟨n, hn⟩⟩
  size := size_ofHistory

/-- A key that is set again keeps its place, and one that is removed first comes last. -/
example : (ofHistory [.set "a" 1, .set "b" 2, .set "c" 3, .set "b" 4, .erase "a",
    .set "a" 5]).entries = [("b", 4), ("c", 3), ("a", 5)] := by decide

end Told

end Callables.Dict
