import Callables.Binding
import Callables.Proofs.Signatures

namespace Callables
namespace Binding

variable {α β ε : Type}

theorem getElem?_place (p : Parameters) (args : List α) (i : Nat) :
    (place p args)[i]? =
      if i < p.positional + p.keywordOnly then
        some (if i < p.positional then args[i]? else none)
      else none := by
  unfold place
  by_cases given : i < p.positional ∧ i < args.length
  · obtain ⟨hp, ha⟩ := given
    rw [List.getElem?_append_left (by simp; omega)]
    simp [hp, ha, Nat.lt_add_right]
  · have open_place : (if i < p.positional then args[i]? else none) = none := by
      split
      · exact List.getElem?_eq_none (by omega)
      · rfl
    have beyond : (args.take p.positional).length ≤ i := by rw [List.length_take]; omega
    rw [List.getElem?_append_right (by rwa [List.length_map]), List.getElem?_replicate, open_place,
      List.length_map]
    have same : i - (args.take p.positional).length < p.positional - args.length + p.keywordOnly ↔
        i < p.positional + p.keywordOnly := by
      rw [List.length_take] at *
      omega
    simp only [same]

/-- A traversal succeeds when every single step does. -/
theorem mapM_eq_ok_iff {f : α → Except ε β} {xs : List α} {ys : List β} :
    xs.mapM f = .ok ys ↔ xs.map f = ys.map .ok := by
  induction xs generalizing ys with
  | nil => cases ys <;> simp [pure, Except.pure]
  | cons x xs ih =>
    rw [List.mapM_cons]
    cases hx : f x with
    | error e => cases ys <;> simp [bind, Except.bind, hx]
    | ok y =>
      cases hxs : xs.mapM f with
      | error e => cases ys <;> simp [bind, Except.bind, hx, ← ih, hxs]
      | ok rest => cases ys <;> simp [bind, Except.bind, pure, Except.pure, hx, ← ih, hxs]

end Binding

theorem Parameters.bind_eq_ok_iff {α : Type} (p : Parameters) (function : String)
    (defaults : Defaults α) (args : List α) (keywords : List (String × α)) {bound : Bound α} :
    p.bind function defaults args keywords = .ok bound ↔
      (args.length ≤ p.positional ∨ p.collectsPositional) ∧
      ∃ filled values,
        keywords.foldlM (Binding.placeKeyword function p)
          { slots := Binding.place p args, extra := Dict.empty } = .ok filled ∧
        filled.slots.zipIdx.mapM (Binding.complete function p defaults) = .ok values ∧
        bound = {
          parameters := values
          positional := if p.collectsPositional then some (args.drop p.positional) else none
          keywords := if p.collectsKeywords then some filled.extra else none } := by
  unfold Parameters.bind
  by_cases room : args.length ≤ p.positional ∨ p.collectsPositional
  · have fits : ¬ (p.positional < args.length ∧ (!p.collectsPositional) = true) := by
      rintro ⟨many, closed⟩
      rcases room with room | room
      · omega
      · simp [room] at closed
    simp only [fits, if_false, room, true_and]
    cases placed : keywords.foldlM (Binding.placeKeyword function p)
        { slots := Binding.place p args, extra := Dict.empty } with
    | error e => exact iff_of_false nofun (by simp)
    | ok filled =>
      cases completed : filled.slots.zipIdx.mapM (Binding.complete function p defaults) with
      | error e =>
        simp only [Bind.bind, Except.bind, completed]
        exact iff_of_false nofun (by simp [completed])
      | ok values =>
        simp only [Bind.bind, Except.bind, completed, pure, Except.pure, Except.ok.injEq]
        constructor
        · rintro rfl
          exact ⟨filled, values, rfl, completed, rfl⟩
        · rintro ⟨_, _, rfl, same, rfl⟩
          rw [completed] at same
          rw [Except.ok.inj same]
  · have refused : p.positional < args.length ∧ (!p.collectsPositional) = true := by
      simpa using room
    simp only [refused, and_self, if_true, room, false_and, iff_false]
    exact nofun

namespace Signature

variable {α : Type} (s : Signature)

def given? (args : List α) (keywords : List (String × α)) (i : Nat) (name : String) : Option α :=
  (if i < s.positional.length then args[i]? else none).or (keywords.lookup name)

/-- The default of a parameter. Positional defaults are counted from the last parameter. -/
def default? (defaults : Defaults α) (i : Nat) (name : String) : Option α :=
  if i < s.positional.length then defaults.positional.reverse[s.positional.length - 1 - i]?
  else defaults.keywordOnly.get? name

def unmatched (keywords : List (String × α)) : List (String × α) :=
  keywords.filter (·.1 ∉ s.names)

/-- No keyword is given to a parameter that has a value, or to none at all. -/
structure KeywordsFit (args : List α) (keywords : List (String × α)) : Prop where
  unfilled : ∀ name ∈ s.positional.take args.length, name ∉ keywords.map Prod.fst
  once : ∀ name ∈ s.names, (keywords.map Prod.fst).count name ≤ 1
  expected : s.extra.isSome ∨ ∀ keyword ∈ keywords, keyword.1 ∈ s.names

structure Accepts (defaults : Defaults α) (args : List α) (keywords : List (String × α)) :
    Prop where
  room : args.length ≤ s.positional.length ∨ s.rest.isSome
  fit : s.KeywordsFit args keywords
  positional : ∀ i name, s.positional[i]? = some name → args.length ≤ i →
    name ∉ keywords.map Prod.fst → s.positional.length - defaults.positional.length ≤ i
  keywordOnly : ∀ name ∈ s.keywordOnly.flatten, name ∉ keywords.map Prod.fst →
    name ∈ defaults.keywordOnly.keys

structure Binds (defaults : Defaults α) (args : List α) (keywords : List (String × α))
    (bound : Bound α) : Prop where
  size : bound.parameters.length = s.positional.length + s.keywordOnly.flatten.length
  parameter : ∀ i name, s.names[i]? = some name →
    bound.parameters[i]? = (s.given? args keywords i name).or (s.default? defaults i name)
  positional : bound.positional =
    if s.rest.isSome then some (args.drop s.positional.length) else none
  keywords : bound.keywords =
    if s.extra.isSome then some (Dict.ofList (s.unmatched keywords)) else none

def filled (args : List α) (keywords : List (String × α)) : Binding.Partial α where
  slots := s.names.mapIdx (s.given? args keywords)
  extra := Dict.ofList (s.unmatched keywords)

theorem given?_eq_none_iff {args : List α} {keywords : List (String × α)} {i : Nat}
    {name : String} :
    s.given? args keywords i name = none ↔
      (i < s.positional.length → args.length ≤ i) ∧ name ∉ keywords.map Prod.fst := by
  have absent : keywords.lookup name = none ↔ name ∉ keywords.map Prod.fst := by
    rw [List.lookup_eq_none_iff, List.mem_map]
    constructor
    · rintro h ⟨keyword, hk, rfl⟩
      simpa using h keyword hk
    · intro h keyword hk
      exact bne_iff_ne.mpr fun he => h ⟨keyword, hk, he.symm⟩
  rw [given?, Option.or_eq_none_iff, absent]
  by_cases hi : i < s.positional.length <;> simp [hi]

/-- A positional parameter is filled when its place is below the number of arguments. -/
theorem mem_take_positional_iff {name : String} {i n : Nat} (h : s.names[i]? = some name) :
    name ∈ s.positional.take n ↔ i < s.positional.length ∧ i < n := by
  rw [List.mem_take_iff_getElem]
  constructor
  · rintro ⟨j, hj, rfl⟩
    have here : s.names[j]? = some s.positional[j] := by
      rw [names, List.getElem?_append_left (by omega), List.getElem?_eq_getElem]
    have same : i = j :=
      (List.getElem?_inj (List.getElem?_eq_some_iff.mp h).1 s.names_nodup).mp (h.trans here.symm)
    omega
  · rintro ⟨hp, hn⟩
    rw [names, List.getElem?_append_left hp] at h
    exact ⟨i, by omega, (List.getElem?_eq_some_iff.mp h).2⟩

/-- Positional arguments are placed as they are given. -/
theorem place_parameters (args : List α) :
    Binding.place s.parameters args = (s.filled args []).slots := by
  apply List.ext_getElem?
  intro i
  rw [filled, List.getElem?_mapIdx, Binding.getElem?_place, parameters_positional,
    parameters_keywordOnly, ← length_names]
  by_cases hi : i < s.names.length
  · simp [hi, given?]
  · simp [hi]

/-- A keyword for a parameter fits when nothing is given to it yet. -/
theorem keywordsFit_concat_of_getElem? {args : List α} {placed : List (String × α)}
    {keyword : String × α} {i : Nat} (fit : s.KeywordsFit args placed)
    (here : s.names[i]? = some keyword.1) :
    s.KeywordsFit args (placed ++ [keyword]) ↔ s.given? args placed i keyword.1 = none := by
  have declared : keyword.1 ∈ s.names := List.mem_of_getElem? here
  rw [given?_eq_none_iff]
  constructor
  · rintro ⟨unfilled, once, -⟩
    constructor
    · intro hp
      by_contra hlt
      exact unfilled keyword.1 ((s.mem_take_positional_iff here).mpr ⟨hp, by omega⟩) (by simp)
    · intro again
      have total := once keyword.1 declared
      rw [List.map_append, List.count_append, List.map_singleton, List.count_singleton_self]
        at total
      have := List.count_pos_iff.mpr again
      omega
  · rintro ⟨place, fresh⟩
    refine ⟨fun name hn => ?_, fun name hn => ?_, ?_⟩
    · have : name ≠ keyword.1 := by
        rintro rfl
        have := (s.mem_take_positional_iff here).mp hn
        omega
      simpa [this] using fit.unfilled name hn
    · have := fit.once name hn
      by_cases same : name = keyword.1
      · subst same
        simp [List.count_eq_zero.mpr fresh]
      · simpa [List.count_singleton, Ne.symm same] using this
    · refine fit.expected.imp_right fun known k hk => ?_
      rcases List.mem_append.mp hk with hk | hk
      · exact known k hk
      · rwa [List.mem_singleton.mp hk]

/-- A keyword that names no parameter fits when further keywords are collected. -/
theorem keywordsFit_concat_of_notMem {args : List α} {placed : List (String × α)}
    {keyword : String × α} (fit : s.KeywordsFit args placed) (undeclared : keyword.1 ∉ s.names) :
    s.KeywordsFit args (placed ++ [keyword]) ↔ s.extra.isSome := by
  constructor
  · rintro ⟨-, -, expected⟩
    exact expected.resolve_right fun known => undeclared (known keyword (by simp))
  · intro collects
    have other : ∀ name ∈ s.names, name ≠ keyword.1 := fun name hn he => undeclared (he ▸ hn)
    refine ⟨fun name hn => ?_, fun name hn => ?_, .inl collects⟩
    · have := other name (List.mem_append_left _ (List.mem_of_mem_take hn))
      simpa [this] using fit.unfilled name hn
    · simpa [List.count_singleton, (other name hn).symm] using fit.once name hn

/-- One more keyword fits when nothing is given yet to the parameter of its name, or when there is
no such parameter and further keywords are collected. -/
theorem keywordsFit_concat_iff {args : List α} {placed : List (String × α)}
    {keyword : String × α} (fit : s.KeywordsFit args placed) :
    s.KeywordsFit args (placed ++ [keyword]) ↔
      match s.parameters.indexOf? keyword.1 with
      | some i => s.given? args placed i keyword.1 = none
      | none => s.extra.isSome := by
  cases hi : s.parameters.indexOf? keyword.1 with
  | some i => exact s.keywordsFit_concat_of_getElem? fit (s.indexOf?_eq_some_iff.mp hi)
  | none => exact s.keywordsFit_concat_of_notMem fit (s.indexOf?_eq_none_iff.mp hi)

theorem KeywordsFit.of_append {args : List α} {placed keywords : List (String × α)}
    (fit : s.KeywordsFit args (placed ++ keywords)) : s.KeywordsFit args placed where
  unfilled name hn hp := fit.unfilled name hn (by simp [hp])
  once name hn := by
    have := fit.once name hn
    rw [List.map_append, List.count_append] at this
    omega
  expected := fit.expected.imp_right fun known k hk => known k (List.mem_append_left _ hk)

theorem given?_concat (args : List α) (placed : List (String × α)) (keyword : String × α)
    (i : Nat) (name : String) :
    s.given? args (placed ++ [keyword]) i name =
      (s.given? args placed i name).or (if name = keyword.1 then some keyword.2 else none) := by
  have last : [keyword].lookup name = if name = keyword.1 then some keyword.2 else none := by
    by_cases same : name = keyword.1
    · rw [same, List.lookup_cons_self, if_pos rfl]
    · rw [List.lookup_cons, beq_false_of_ne same, if_neg same, List.lookup_nil]
  rw [given?, given?, List.lookup_append, last, Option.or_assoc]

/-- The slots after a keyword for a parameter that is still open. -/
theorem set_filled {args : List α} {placed : List (String × α)} {keyword : String × α} {i : Nat}
    (here : s.names[i]? = some keyword.1) (free : s.given? args placed i keyword.1 = none) :
    (s.filled args placed).slots.set i (some keyword.2) =
      (s.filled args (placed ++ [keyword])).slots := by
  apply List.ext_getElem?
  intro j
  simp only [filled, List.getElem?_set, List.length_mapIdx, List.getElem?_mapIdx]
  have inside := (List.getElem?_eq_some_iff.mp here).1
  by_cases same : i = j
  · subst same
    simp only [here, inside, if_true, Option.map_some, given?_concat, free, Option.none_or]
  · simp only [same, if_false]
    cases hj : s.names[j]? with
    | none => rfl
    | some name =>
      have other : name ≠ keyword.1 := by
        rintro rfl
        exact same ((List.getElem?_inj inside s.names_nodup).mp (here.trans hj.symm))
      simp [given?_concat, other]

/-- A keyword that names no parameter leaves the slots as they are. -/
theorem filled_concat_of_notMem {args : List α} {placed : List (String × α)}
    {keyword : String × α} (undeclared : keyword.1 ∉ s.names) :
    s.filled args (placed ++ [keyword]) =
      { s.filled args placed with
        extra := (s.filled args placed).extra.set keyword.1 keyword.2 } := by
  have slots : (s.filled args (placed ++ [keyword])).slots = (s.filled args placed).slots := by
    apply List.ext_getElem?
    intro j
    simp only [filled, List.getElem?_mapIdx]
    cases hj : s.names[j]? with
    | none => rfl
    | some name =>
      have other : name ≠ keyword.1 := fun same =>
        undeclared (same ▸ List.mem_of_getElem? hj)
      simp [given?_concat, other]
  have extra : (s.filled args (placed ++ [keyword])).extra =
      (s.filled args placed).extra.set keyword.1 keyword.2 := by
    simp [filled, unmatched, undeclared, Dict.ofList, List.filter_append]
  simp only [← extra, ← slots]

/-- Placing one keyword: when it fits, what is filled grows by it. -/
theorem placeKeyword_of_fit (function : String) {args : List α} {placed : List (String × α)}
    {keyword : String × α} (fit : s.KeywordsFit args (placed ++ [keyword])) :
    Binding.placeKeyword function s.parameters (s.filled args placed) keyword =
      .ok (s.filled args (placed ++ [keyword])) := by
  have fits := (s.keywordsFit_concat_iff (KeywordsFit.of_append s fit)).mp fit
  unfold Binding.placeKeyword
  cases hi : s.parameters.indexOf? keyword.1 with
  | some i =>
    rw [hi] at fits
    have here := s.indexOf?_eq_some_iff.mp hi
    have slot : (s.filled args placed).slots[i]? = some none := by
      simp only [filled, List.getElem?_mapIdx, here, Option.map_some, fits]
    have declared : keyword.1 ∈ s.names := List.mem_of_getElem? here
    simp only [slot]
    rw [s.set_filled here fits]
    simp [filled, unmatched, declared, List.filter_append]
  | none =>
    rw [hi] at fits
    simp only [parameters_collectsKeywords]
    rw [if_pos fits, s.filled_concat_of_notMem (s.indexOf?_eq_none_iff.mp hi)]

theorem placeKeyword_of_not_fit (function : String) {args : List α}
    {placed : List (String × α)} {keyword : String × α} (fit : s.KeywordsFit args placed)
    (unfit : ¬ s.KeywordsFit args (placed ++ [keyword])) :
    ∃ e, Binding.placeKeyword function s.parameters (s.filled args placed) keyword = .error e := by
  rw [s.keywordsFit_concat_iff fit] at unfit
  unfold Binding.placeKeyword
  cases hi : s.parameters.indexOf? keyword.1 with
  | some i =>
    rw [hi] at unfit
    obtain ⟨v, hv⟩ := Option.ne_none_iff_exists'.mp unfit
    have slot : (s.filled args placed).slots[i]? = some (some v) := by
      simp only [filled, List.getElem?_mapIdx, s.indexOf?_eq_some_iff.mp hi, Option.map_some, hv]
    simp only [slot]
    exact ⟨_, rfl⟩
  | none =>
    rw [hi] at unfit
    simp only [parameters_collectsKeywords]
    exact ⟨_, if_neg unfit⟩

theorem foldlM_placeKeyword (function : String) {args : List α}
    {placed keywords : List (String × α)} (fit : s.KeywordsFit args placed)
    {result : Binding.Partial α} :
    keywords.foldlM (Binding.placeKeyword function s.parameters) (s.filled args placed) =
        .ok result ↔
      s.KeywordsFit args (placed ++ keywords) ∧ result = s.filled args (placed ++ keywords) := by
  -- The invariant is that the slots are those filled by the keywords placed so far.
  induction keywords generalizing placed with
  | nil =>
    simp only [List.foldlM_nil, List.append_nil, fit, true_and]
    exact ⟨fun h => (Except.ok.inj h).symm, fun h => h ▸ rfl⟩
  | cons keyword rest ih =>
    have split : placed ++ keyword :: rest = (placed ++ [keyword]) ++ rest := by simp
    rw [List.foldlM_cons, split]
    by_cases next : s.KeywordsFit args (placed ++ [keyword])
    · rw [s.placeKeyword_of_fit function next]
      exact ih next
    · obtain ⟨e, he⟩ := s.placeKeyword_of_not_fit function fit next
      rw [he]
      exact ⟨fun h => (nomatch h), fun h => absurd (KeywordsFit.of_append s h.1) next⟩

/-- The default of a positional parameter, counted from the front or from the end. -/
theorem positionalDefault?_parameters {defaults : List α}
    (few : defaults.length ≤ s.positional.length) {i : Nat} (hi : i < s.positional.length) :
    Binding.positionalDefault? s.parameters defaults i =
      defaults.reverse[s.positional.length - 1 - i]? := by
  simp only [Binding.positionalDefault?, parameters_positional]
  split
  · rw [List.getElem?_reverse (by omega)]
    congr 1
    omega
  · exact (List.getElem?_eq_none (by rw [List.length_reverse]; omega)).symm

theorem complete_eq_ok_iff (function : String) {defaults : Defaults α}
    (few : defaults.positional.length ≤ s.positional.length) {i : Nat} {name : String}
    (here : s.names[i]? = some name) {slot : Option α} {value : α} :
    Binding.complete function s.parameters defaults (slot, i) = .ok value ↔
      slot.or (s.default? defaults i name) = some value := by
  unfold Binding.complete default?
  cases slot with
  | some v => simp
  | none =>
    simp only [parameters_positional, s.nameAt_parameters here, Option.none_or]
    by_cases hi : i < s.positional.length
    · simp only [hi, if_true, s.positionalDefault?_parameters few hi]
      cases defaults.positional.reverse[s.positional.length - 1 - i]? <;> simp
    · simp only [hi, if_false]
      cases defaults.keywordOnly.get? name <;> simp

theorem mapM_complete_eq_ok_iff (function : String) {defaults : Defaults α}
    (few : defaults.positional.length ≤ s.positional.length) {args : List α}
    {keywords : List (String × α)} {values : List α} :
    (s.filled args keywords).slots.zipIdx.mapM (Binding.complete function s.parameters defaults) =
        .ok values ↔
      values.length = s.names.length ∧ ∀ i name, s.names[i]? = some name →
        values[i]? = (s.given? args keywords i name).or (s.default? defaults i name) := by
  rw [Binding.mapM_eq_ok_iff]
  constructor
  · intro h
    have size : values.length = s.names.length := by
      have := congrArg List.length h
      simpa [filled] using this.symm
    refine ⟨size, fun i name here => ?_⟩
    have inside : i < values.length := size ▸ (List.getElem?_eq_some_iff.mp here).1
    have at_i := congrArg (·[i]?) h
    simp only [List.getElem?_map, List.getElem?_zipIdx, filled, List.getElem?_mapIdx, here,
      Option.map_some, Nat.zero_add, List.getElem?_eq_getElem inside, Option.some.injEq] at at_i
    rw [List.getElem?_eq_getElem inside]
    exact ((s.complete_eq_ok_iff function few here).mp at_i).symm
  · rintro ⟨size, value⟩
    apply List.ext_getElem?
    intro i
    simp only [List.getElem?_map, List.getElem?_zipIdx, filled, List.getElem?_mapIdx,
      Nat.zero_add]
    cases here : s.names[i]? with
    | none =>
      have := List.getElem?_eq_none_iff.mp here
      rw [List.getElem?_eq_none (by omega)]
      rfl
    | some name =>
      have inside : i < values.length := size ▸ (List.getElem?_eq_some_iff.mp here).1
      have given := value i name here
      rw [List.getElem?_eq_getElem inside] at given ⊢
      simp only [Option.map_some]
      exact congrArg some ((s.complete_eq_ok_iff function few here).mpr given.symm)

theorem bind_eq_ok_iff (function : String) {defaults : Defaults α}
    (few : defaults.positional.length ≤ s.positional.length) {args : List α}
    {keywords : List (String × α)} {bound : Bound α} :
    s.parameters.bind function defaults args keywords = .ok bound ↔
      (args.length ≤ s.positional.length ∨ s.rest.isSome) ∧ s.KeywordsFit args keywords ∧
        s.Binds defaults args keywords bound := by
  have none_placed : s.KeywordsFit args ([] : List (String × α)) :=
    ⟨by simp, by simp, .inr (by simp)⟩
  have start : ({ slots := Binding.place s.parameters args, extra := Dict.empty } :
      Binding.Partial α) = s.filled args [] := by
    rw [place_parameters]
    rfl
  simp only [Parameters.bind_eq_ok_iff, start, s.foldlM_placeKeyword function none_placed,
    List.nil_append, parameters_positional, parameters_collectsPositional,
    parameters_collectsKeywords]
  refine and_congr_right fun _ => ?_
  constructor
  · rintro ⟨_, values, ⟨fit, rfl⟩, completed, rfl⟩
    obtain ⟨size, value⟩ := (s.mapM_complete_eq_ok_iff function few).mp completed
    exact ⟨fit, size.trans s.length_names, value, rfl, rfl⟩
  · rintro ⟨fit, size, value, positional, extra⟩
    refine ⟨_, bound.parameters, ⟨fit, rfl⟩,
      (s.mapM_complete_eq_ok_iff function few).mpr ⟨size.trans s.length_names.symm, value⟩, ?_⟩
    simp only [filled, ← positional, ← extra]

theorem isSome_positional_default?_iff {defaults : Defaults α}
    (few : defaults.positional.length ≤ s.positional.length) {i : Nat}
    (hi : i < s.positional.length) (name : String) :
    (s.default? defaults i name).isSome ↔
      s.positional.length - defaults.positional.length ≤ i := by
  rw [default?, if_pos hi, isSome_getElem?, List.length_reverse]
  omega

theorem isSome_keywordOnly_default?_iff {defaults : Defaults α} {i : Nat}
    (hi : s.positional.length ≤ i) (name : String) :
    (s.default? defaults i name).isSome ↔ name ∈ defaults.keywordOnly.keys := by
  rw [default?, if_neg (by omega), ← Dict.contains_eq_isSome, Dict.contains_iff_mem_keys]

/-- Every parameter has a value when those that a call leaves open have a default. -/
theorem forall_isSome_iff {defaults : Defaults α}
    (few : defaults.positional.length ≤ s.positional.length) {args : List α}
    {keywords : List (String × α)} :
    (∀ i name, s.names[i]? = some name →
      ((s.given? args keywords i name).or (s.default? defaults i name)).isSome) ↔
      (∀ i name, s.positional[i]? = some name → args.length ≤ i →
        name ∉ keywords.map Prod.fst → s.positional.length - defaults.positional.length ≤ i) ∧
      ∀ name ∈ s.keywordOnly.flatten, name ∉ keywords.map Prod.fst →
        name ∈ defaults.keywordOnly.keys := by
  constructor
  · intro valued
    constructor
    · intro i name here unplaced unnamed
      have hi := (List.getElem?_eq_some_iff.mp here).1
      have := valued i name (by rw [names, List.getElem?_append_left hi, here])
      rwa [s.given?_eq_none_iff.mpr ⟨fun _ => unplaced, unnamed⟩, Option.none_or,
        s.isSome_positional_default?_iff few hi] at this
    · intro name declared unnamed
      obtain ⟨j, here⟩ := List.mem_iff_getElem?.mp declared
      have := valued (s.positional.length + j) name
        (by rw [names, List.getElem?_append_right (by omega), Nat.add_sub_cancel_left, here])
      rwa [s.given?_eq_none_iff.mpr ⟨by omega, unnamed⟩, Option.none_or,
        s.isSome_keywordOnly_default?_iff (by omega)] at this
  · rintro ⟨positional, keywordOnly⟩ i name here
    cases open_place : s.given? args keywords i name with
    | some v => rfl
    | none =>
      obtain ⟨unplaced, unnamed⟩ := s.given?_eq_none_iff.mp open_place
      rw [Option.none_or]
      rw [names] at here
      by_cases hi : i < s.positional.length
      · rw [List.getElem?_append_left hi] at here
        exact (s.isSome_positional_default?_iff few hi name).mpr
          (positional i name here (unplaced hi) unnamed)
      · rw [List.getElem?_append_right (by omega)] at here
        exact (s.isSome_keywordOnly_default?_iff (by omega) name).mpr
          (keywordOnly name (List.mem_of_getElem? here) unnamed)

theorem Accepts.exists_binds {defaults : Defaults α}
    (few : defaults.positional.length ≤ s.positional.length) {args : List α}
    {keywords : List (String × α)} (accepts : s.Accepts defaults args keywords) :
    ∃ bound, s.Binds defaults args keywords bound := by
  have valued := (s.forall_isSome_iff few).mpr ⟨accepts.positional, accepts.keywordOnly⟩
  let value (i : Fin s.names.length) : α :=
    ((s.given? args keywords i s.names[i]).or (s.default? defaults i s.names[i])).get
      (valued i s.names[i] (List.getElem?_eq_getElem i.isLt))
  refine ⟨⟨List.ofFn value, _, _⟩, ?_, fun i name here => ?_, rfl, rfl⟩
  · rw [List.length_ofFn, length_names]
  · obtain ⟨hi, rfl⟩ := List.getElem?_eq_some_iff.mp here
    simp [hi, value]

/-- Binding meets its specification. In a parameter list in the documented layout, and with no
more positional defaults than positional parameters, binding succeeds exactly on the calls that the
parameter list accepts, and it then binds to every parameter what is given for it, or else its
default, and hands on what is left to the collecting parameters. -/
theorem bind_meets_specification (function : String) (defaults : Defaults α)
    (few : defaults.positional.length ≤ s.positional.length) (args : List α)
    (keywords : List (String × α)) :
    ((∃ bound, s.parameters.bind function defaults args keywords = .ok bound) ↔
      s.Accepts defaults args keywords) ∧
    ∀ bound, s.parameters.bind function defaults args keywords = .ok bound →
      s.Binds defaults args keywords bound := by
  simp only [s.bind_eq_ok_iff function few]
  refine ⟨⟨?_, fun accepts => ?_⟩, fun bound h => h.2.2⟩
  · rintro ⟨bound, room, fit, binds⟩
    have valued := (s.forall_isSome_iff few).mp fun i name here => by
      rw [← binds.parameter i name here, isSome_getElem?, binds.size, ← length_names]
      exact (List.getElem?_eq_some_iff.mp here).1
    exact ⟨room, fit, valued.1, valued.2⟩
  · obtain ⟨bound, binds⟩ := Accepts.exists_binds s few accepts
    exact ⟨bound, accepts.room, accepts.fit, binds⟩

/-- `a, b, *rest, c, d, **extra`, the keyword-only parameters appended one by one. -/
def mixed : Signature where
  positional := ["a", "b"]
  rest := some "rest"
  keywordOnly := [["c"], ["d"]]
  extra := some "extra"
  distinct := by decide
  few_positional := by decide
  few_keywordOnly := by decide

/-- With defaults for `b` and `d`, one argument and a keyword for `c` are enough, and further
keywords are collected; a keyword for the parameter that the argument fills is refused. -/
theorem mixed_meets_specification :
    (mixed.Accepts ⟨[7], ⟨[("d", 8)]⟩⟩ [1] [("c", 3), ("x", 5)] ∧
      mixed.Binds ⟨[7], ⟨[("d", 8)]⟩⟩ [1] [("c", 3), ("x", 5)]
        ⟨[1, 7, 3, 8], some [], some ⟨[("x", 5)]⟩⟩) ∧
    ¬ mixed.Accepts ⟨[7], ⟨[("d", 8)]⟩⟩ [1] [("a", 2), ("c", 3)] := by
  have accepted := mixed.bind_meets_specification "f" ⟨[7], ⟨[("d", 8)]⟩⟩ (by decide) [1]
    [("c", 3), ("x", 5)]
  have refused := mixed.bind_meets_specification "f" ⟨[7], ⟨[("d", 8)]⟩⟩ (by decide) [1]
    [("a", 2), ("c", 3)]
  refine ⟨⟨accepted.1.mp ⟨_, rfl⟩, accepted.2 _ rfl⟩, fun accepts => ?_⟩
  obtain ⟨_, h⟩ := refused.1.mpr accepts
  exact nomatch h

end Signature
end Callables
