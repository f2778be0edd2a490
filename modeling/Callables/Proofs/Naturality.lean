import Callables.Binding

namespace Callables

variable {α β : Type}

namespace Dict

def map (f : α → β) (d : Dict α) : Dict β := ⟨d.entries.map fun e => (e.1, f e.2)⟩

variable (f : α → β)

@[simp] theorem map_empty : (empty : Dict α).map f = empty := rfl

@[simp] theorem values_map (d : Dict α) : (d.map f).values = d.values.map f := by
  simp [map, values]

@[simp] theorem contains_map (d : Dict α) (key : String) :
    (d.map f).contains key = d.contains key := by
  simp only [map, contains, List.any_map]
  rfl

@[simp] theorem get?_map (d : Dict α) (key : String) :
    (d.map f).get? key = (d.get? key).map f := by
  simp only [map, get?, List.find?_map, Option.map_map]
  rfl

@[simp] theorem set_map (d : Dict α) (key : String) (value : α) :
    (d.map f).set key (f value) = (d.set key value).map f := by
  unfold set
  rw [contains_map]
  split
  · simp only [map, List.map_map, Dict.mk.injEq]
    apply List.map_congr_left
    intro e _
    by_cases he : e.1 = key <;> simp [he]
  · simp [map]

theorem foldl_set_map (pairs : List (String × α)) (d : Dict α) :
    (pairs.map fun p => (p.1, f p.2)).foldl (fun d pair => d.set pair.1 pair.2) (d.map f) =
      (pairs.foldl (fun d pair => d.set pair.1 pair.2) d).map f := by
  induction pairs generalizing d with
  | nil => rfl
  | cons pair rest ih =>
    rw [List.map_cons, List.foldl_cons, List.foldl_cons, set_map, ih]

@[simp] theorem ofList_map (pairs : List (String × α)) :
    ofList (pairs.map fun p => (p.1, f p.2)) = (ofList pairs).map f :=
  foldl_set_map f pairs empty

end Dict

def Defaults.map (f : α → β) (d : Defaults α) : Defaults β :=
  ⟨d.positional.map f, d.keywordOnly.map f⟩

def Bound.map (f : α → β) (b : Bound α) : Bound β :=
  ⟨b.parameters.map f, b.positional.map (List.map f), b.keywords.map (Dict.map f)⟩

namespace Binding

def Partial.map (f : α → β) (p : Partial α) : Partial β :=
  ⟨p.slots.map (Option.map f), p.extra.map f⟩

variable (f : α → β)

theorem place_map (p : Parameters) (args : List α) :
    place p (args.map f) = (place p args).map (Option.map f) := by
  simp only [place, List.map_append, List.map_take, List.map_map, List.map_replicate,
    List.length_map, Option.map_none]
  rfl

theorem placeKeyword_map (function : String) (p : Parameters) (filled : Partial α)
    (keyword : String × α) :
    placeKeyword function p (filled.map f) (keyword.1, f keyword.2) =
      Partial.map f <$> placeKeyword function p filled keyword := by
  unfold placeKeyword
  cases p.indexOf? keyword.1 with
  | some i =>
    simp only [Partial.map, List.getElem?_map]
    cases filled.slots[i]? with
    | none => simp [Functor.map, Except.map, Partial.map]
    | some slot => cases slot <;> simp [Functor.map, Except.map, Partial.map]
  | none =>
    simp only
    split <;> simp [Functor.map, Except.map, Partial.map]

theorem positionalDefault?_map (p : Parameters) (defaults : List α) (index : Nat) :
    positionalDefault? p (defaults.map f) index = (positionalDefault? p defaults index).map f := by
  simp only [positionalDefault?, List.length_map]
  split <;> simp

theorem complete_map (function : String) (p : Parameters) (defaults : Defaults α)
    (slot : Option α × Nat) :
    complete function p (defaults.map f) (slot.1.map f, slot.2) =
      f <$> complete function p defaults slot := by
  obtain ⟨_ | value, i⟩ := slot
  · simp only [complete, Defaults.map, Option.map_none, positionalDefault?_map, Dict.get?_map]
    split
    · cases positionalDefault? p defaults.positional i <;> rfl
    · cases defaults.keywordOnly.get? (p.nameAt i) <;> rfl
  · rfl

/-- A fold over renamed elements from a renamed start ends with the renamed result. -/
theorem foldlM_hom {σ τ ε : Type} (h : σ → τ) (g : α → β) {step : σ → α → Except ε σ}
    {step' : τ → β → Except ε τ} (same : ∀ s x, step' (h s) (g x) = h <$> step s x)
    (l : List α) (s : σ) : (l.map g).foldlM step' (h s) = h <$> l.foldlM step s := by
  induction l generalizing s with
  | nil => rfl
  | cons x rest ih =>
    rw [List.map_cons, List.foldlM_cons, List.foldlM_cons, same]
    cases step s x with
    | error e => rfl
    | ok s' => exact ih s'

theorem mapM_hom {γ δ ε : Type} (h : γ → δ) (g : α → β) {step : α → Except ε γ}
    {step' : β → Except ε δ} (same : ∀ x, step' (g x) = h <$> step x) (l : List α) :
    (l.map g).mapM step' = List.map h <$> l.mapM step := by
  induction l with
  | nil => rfl
  | cons x rest ih =>
    rw [List.map_cons, List.mapM_cons, List.mapM_cons, same, ih]
    cases step x with
    | error e => rfl
    | ok v => cases rest.mapM step <;> rfl

end Binding

namespace Parameters

theorem bind_map (f : α → β) (p : Parameters) (function : String) (defaults : Defaults α)
    (args : List α) (keywords : List (String × α)) :
    p.bind function (defaults.map f) (args.map f) (keywords.map fun k => (k.1, f k.2)) =
      Bound.map f <$> p.bind function defaults args keywords := by
  unfold Parameters.bind
  simp only [List.length_map]
  split
  · rfl
  · have hstart : (⟨Binding.place p (args.map f), Dict.empty⟩ : Binding.Partial β) =
        Binding.Partial.map f ⟨Binding.place p args, Dict.empty⟩ := by
      simp [Binding.Partial.map, Binding.place_map]
    have hfold := Binding.foldlM_hom (Binding.Partial.map f) (fun k => (k.1, f k.2))
      (Binding.placeKeyword_map f function p) keywords ⟨Binding.place p args, Dict.empty⟩
    simp only [hstart, hfold]
    cases keywords.foldlM (Binding.placeKeyword function p)
        ⟨Binding.place p args, Dict.empty⟩ with
    | error e => rfl
    | ok filled =>
      have hmap := Binding.mapM_hom f (fun s : Option α × Nat => (s.1.map f, s.2))
        (Binding.complete_map f function p defaults) filled.slots.zipIdx
      have hzip : (Binding.Partial.map f filled).slots.zipIdx =
          filled.slots.zipIdx.map fun s => (s.1.map f, s.2) := by
        simp [Binding.Partial.map, List.zipIdx_map, Prod.map]
      rw [← hzip] at hmap
      change ((Binding.Partial.map f filled).slots.zipIdx.mapM
          (Binding.complete function p (defaults.map f)) >>= _) =
        Bound.map f <$> (filled.slots.zipIdx.mapM (Binding.complete function p defaults) >>= _)
      rw [hmap]
      cases filled.slots.zipIdx.mapM (Binding.complete function p defaults) with
      | error e => rfl
      | ok parameters =>
        have hp : (if p.collectsPositional then some ((args.map f).drop p.positional) else none) =
            (if p.collectsPositional then some (args.drop p.positional) else none).map
              (List.map f) := by
          split <;> simp
        have hk : (if p.collectsKeywords then some (Binding.Partial.map f filled).extra else none) =
            (if p.collectsKeywords then some filled.extra else none).map (Dict.map f) := by
          split <;> simp [Binding.Partial.map]
        change Except.ok (Bound.mk _ _ _) = Except.ok (Bound.mk _ _ _)
        rw [hp, hk]

theorem exists_lift {q : α → Prop} {l : List α} (h : ∀ v ∈ l, q v) :
    ∃ l' : List { v // q v }, l'.map Subtype.val = l :=
  ⟨l.attach.map fun v => ⟨v.1, h v.1 v.2⟩, by simp⟩

theorem exists_lift_pairs {q : α → Prop} {l : List (String × α)} (h : ∀ v ∈ l.map Prod.snd, q v) :
    ∃ l' : List (String × { v // q v }), (l'.map fun k => (k.1, k.2.val)) = l := by
  refine ⟨l.attach.map fun e => (e.1.1, ⟨e.1.2, h _ (List.mem_map_of_mem e.2)⟩), ?_⟩
  rw [List.map_map]
  exact l.attach_map_subtype_val

/-- Every value that is bound was an argument or a default. -/
theorem bind_values {q : α → Prop} {p : Parameters} {function : String} {defaults : Defaults α}
    {args : List α} {keywords : List (String × α)} {bound : Bound α}
    (h : p.bind function defaults args keywords = .ok bound)
    (hp : ∀ v ∈ defaults.positional, q v) (hd : ∀ v ∈ defaults.keywordOnly.values, q v)
    (ha : ∀ v ∈ args, q v) (hk : ∀ v ∈ keywords.map Prod.snd, q v) :
    (∀ v ∈ bound.parameters, q v) ∧ (∀ vs, bound.positional = some vs → ∀ v ∈ vs, q v) ∧
      ∀ d, bound.keywords = some d → ∀ v ∈ d.values, q v := by
  obtain ⟨positional, ⟨entries'⟩⟩ := defaults
  obtain ⟨positional, rfl⟩ := exists_lift hp
  obtain ⟨entries, he⟩ := exists_lift_pairs hd
  obtain ⟨args, rfl⟩ := exists_lift ha
  obtain ⟨keywords, rfl⟩ := exists_lift_pairs hk
  have lifted : (⟨positional.map Subtype.val, ⟨entries'⟩⟩ : Defaults α) =
      Defaults.map Subtype.val ⟨positional, ⟨entries⟩⟩ := by
    simp [Defaults.map, Dict.map, he]
  rw [lifted, bind_map] at h
  cases hb : p.bind function ⟨positional, ⟨entries⟩⟩ args keywords with
  | error e => simp [hb, Functor.map, Except.map] at h
  | ok b =>
    rw [hb] at h
    obtain rfl : Bound.map Subtype.val b = bound := Except.ok.inj h
    refine ⟨?_, ?_, ?_⟩
    · intro v hv
      obtain ⟨u, _, rfl⟩ := List.mem_map.mp hv
      exact u.property
    · intro vs hvs v hv
      obtain ⟨us, _, rfl⟩ := Option.map_eq_some_iff.mp hvs
      obtain ⟨u, _, rfl⟩ := List.mem_map.mp hv
      exact u.property
    · intro d hd v hv
      obtain ⟨d', _, rfl⟩ := Option.map_eq_some_iff.mp hd
      rw [Dict.values_map] at hv
      obtain ⟨u, _, rfl⟩ := List.mem_map.mp hv
      exact u.property

end Parameters
end Callables
