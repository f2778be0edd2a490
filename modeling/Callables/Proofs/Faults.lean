import Callables.Proofs.ArgumentBinding

namespace Callables
namespace Binding

variable {α β ε : Type}

/-- A fold fails with the error of the first element that is refused. -/
theorem foldlM_eq_error_iff {f : β → α → Except ε β} {xs : List α} {init : β} {e : ε} :
    xs.foldlM f init = .error e ↔
      ∃ before x after s, xs = before ++ x :: after ∧ before.foldlM f init = .ok s ∧
        f s x = .error e := by
  constructor
  · intro failed
    induction xs generalizing init with
    | nil => cases failed
    | cons x rest ih =>
      rw [List.foldlM_cons] at failed
      cases first : f init x with
      | error e' =>
        rw [first] at failed
        exact ⟨[], x, rest, init, rfl, rfl, first.trans failed⟩
      | ok s =>
        rw [first] at failed
        obtain ⟨before, y, after, t, rfl, done, refused⟩ := ih failed
        refine ⟨x :: before, y, after, t, rfl, ?_, refused⟩
        rw [List.foldlM_cons, first]
        exact done
  · rintro ⟨before, x, after, s, rfl, done, refused⟩
    rw [List.foldlM_append, done]
    change (x :: after).foldlM f s = .error e
    rw [List.foldlM_cons, refused]
    rfl

/-- A traversal fails with the error of the first element that has one. -/
theorem mapM_eq_error_iff {f : α → Except ε β} {xs : List α} {e : ε} :
    xs.mapM f = .error e ↔
      ∃ (i : Nat) (x : α), xs[i]? = some x ∧ f x = .error e ∧
        ∀ (j : Nat) (y : α), j < i → xs[j]? = some y → ∃ z, f y = .ok z := by
  induction xs with
  | nil => simp [pure, Except.pure]
  | cons x rest ih =>
    cases first : f x with
    | error e' =>
      have failed : (x :: rest).mapM f = .error e' := by
        rw [List.mapM_cons, first]
        rfl
      rw [failed]
      constructor
      · intro same
        obtain rfl := Except.error.inj same
        exact ⟨0, x, rfl, first, fun j _ hj => absurd hj (Nat.not_lt_zero j)⟩
      · rintro ⟨i, y, here, refused, earlier⟩
        cases i with
        | zero =>
          cases here
          rw [Except.error.inj (first.symm.trans refused)]
        | succ i =>
          obtain ⟨z, hz⟩ := earlier 0 x (Nat.zero_lt_succ i) rfl
          cases first.symm.trans hz
    | ok y =>
      have later : (x :: rest).mapM f = .error e ↔ rest.mapM f = .error e := by
        rw [List.mapM_cons, first]
        change (rest.mapM f >>= fun ys => pure (y :: ys)) = _ ↔ _
        cases rest.mapM f with
        | error e' => exact Iff.rfl
        | ok ys => simp [bind, Except.bind, pure, Except.pure]
      rw [later, ih]
      constructor
      · rintro ⟨i, z, here, refused, earlier⟩
        refine ⟨i + 1, z, here, refused, fun j w hj hw => ?_⟩
        cases j with
        | zero =>
          cases hw
          exact ⟨y, first⟩
        | succ j => exact earlier j w (Nat.lt_of_succ_lt_succ hj) hw
      · rintro ⟨i, z, here, refused, earlier⟩
        cases i with
        | zero =>
          cases here
          cases first.symm.trans refused
        | succ i =>
          exact ⟨i, z, here, refused, fun j w hj hw =>
            earlier (j + 1) w (Nat.succ_lt_succ hj) hw⟩

end Binding

namespace Parameters

variable {α : Type} (p : Parameters) (function : String) (defaults : Defaults α) (args : List α)
  (keywords : List (String × α))

/-- Binding fails in the first of its three stages that does. -/
theorem bind_eq_error_iff {e : BindingError} :
    p.bind function defaults args keywords = .error e ↔
      (p.positional < args.length ∧ p.collectsPositional = false) ∧
          e = .tooManyPositional function p.positional args.length ∨
        (args.length ≤ p.positional ∨ p.collectsPositional = true) ∧
          (keywords.foldlM (Binding.placeKeyword function p)
              { slots := Binding.place p args, extra := Dict.empty } = .error e ∨
            ∃ filled, keywords.foldlM (Binding.placeKeyword function p)
                { slots := Binding.place p args, extra := Dict.empty } = .ok filled ∧
              filled.slots.zipIdx.mapM (Binding.complete function p defaults) = .error e) := by
  unfold Parameters.bind
  by_cases room : args.length ≤ p.positional ∨ p.collectsPositional = true
  · have fits : ¬ (p.positional < args.length ∧ p.collectsPositional = false) := by
      rintro ⟨many, closed⟩
      rcases room with room | room
      · omega
      · exact nomatch closed.symm.trans room
    have fits' : ¬ (p.positional < args.length ∧ (!p.collectsPositional) = true) := by
      simpa using fits
    rw [if_neg fits']
    simp only [room, fits, false_and, false_or, true_and]
    cases placed : keywords.foldlM (Binding.placeKeyword function p)
        { slots := Binding.place p args, extra := Dict.empty } with
    | error e' =>
      change Except.error e' = Except.error e ↔ _
      simp
    | ok filled =>
      change (filled.slots.zipIdx.mapM (Binding.complete function p defaults) >>= _) = _ ↔ _
      cases completed : filled.slots.zipIdx.mapM (Binding.complete function p defaults) with
      | error e' =>
        change Except.error e' = Except.error e ↔ _
        simp [completed]
      | ok values => exact iff_of_false nofun (by simp [completed])
  · have refused : p.positional < args.length ∧ p.collectsPositional = false := by
      simpa using room
    have refused' : p.positional < args.length ∧ (!p.collectsPositional) = true := by
      simpa using refused
    rw [if_pos refused']
    constructor
    · exact fun failed => .inl ⟨refused, (Except.error.inj failed).symm⟩
    · rintro (⟨-, rfl⟩ | ⟨fits, -⟩)
      · rfl
      · exact absurd fits room

end Parameters

namespace Signature

variable {α : Type} (s : Signature)

/-- A positional parameter that a call leaves open: neither its place nor its name is given. -/
structure LeavesOpen (args : List α) (keywords : List (String × α)) (i : Nat) (name : String) :
    Prop where
  declared : s.positional[i]? = some name
  unplaced : args.length ≤ i
  unnamed : name ∉ keywords.map Prod.fst

structure LacksPositional (defaults : Defaults α) (args : List α) (keywords : List (String × α))
    (i : Nat) (name : String) : Prop extends s.LeavesOpen args keywords i name where
  noDefault : defaults.positional.length + i < s.positional.length

structure LacksKeywordOnly (defaults : Defaults α) (keywords : List (String × α)) (i : Nat)
    (name : String) : Prop where
  declared : s.keywordOnly.flatten[i]? = some name
  unnamed : name ∉ keywords.map Prod.fst
  noDefault : name ∉ defaults.keywordOnly.keys

inductive Fault (function : String) (defaults : Defaults α) (args : List α)
    (keywords : List (String × α)) : BindingError → Prop
  /-- There are more arguments than positional parameters, and nothing collects them. -/
  | tooManyPositional (many : s.positional.length < args.length) (closed : s.rest = none) :
      Fault function defaults args keywords
        (.tooManyPositional function s.positional.length args.length)
  /-- The first keyword that does not fit is for a parameter filled by an argument or by an earlier
  keyword. -/
  | duplicateArgument {before after : List (String × α)} {name : String} {value : α}
      (room : args.length ≤ s.positional.length ∨ s.rest.isSome)
      (split : keywords = before ++ (name, value) :: after) (fit : s.KeywordsFit args before)
      (filled : name ∈ s.positional.take args.length ∨
        name ∈ s.names ∧ name ∈ before.map Prod.fst) :
      Fault function defaults args keywords (.duplicateArgument function name)
  /-- The first keyword that does not fit names no parameter, and nothing collects it. -/
  | unexpectedKeyword {before after : List (String × α)} {name : String} {value : α}
      (room : args.length ≤ s.positional.length ∨ s.rest.isSome)
      (split : keywords = before ++ (name, value) :: after) (fit : s.KeywordsFit args before)
      (undeclared : name ∉ s.names) (closed : s.extra = none) :
      Fault function defaults args keywords (.unexpectedKeyword function name)
  /-- All arguments have a place, and this is the first positional parameter without a value. -/
  | missingPositional {i : Nat} {name : String}
      (room : args.length ≤ s.positional.length ∨ s.rest.isSome)
      (fit : s.KeywordsFit args keywords) (lacks : s.LacksPositional defaults args keywords i name)
      (first : ∀ j other, s.LacksPositional defaults args keywords j other → i ≤ j) :
      Fault function defaults args keywords (.missingPositional function name)
  /-- All positional parameters have a value, and this is the first keyword-only one without. -/
  | missingKeywordOnly {i : Nat} {name : String}
      (room : args.length ≤ s.positional.length ∨ s.rest.isSome)
      (fit : s.KeywordsFit args keywords)
      (positional : ∀ j other, ¬ s.LacksPositional defaults args keywords j other)
      (lacks : s.LacksKeywordOnly defaults keywords i name)
      (first : ∀ j other, s.LacksKeywordOnly defaults keywords j other → i ≤ j) :
      Fault function defaults args keywords (.missingKeywordOnly function name)

theorem keywordsFit_nil (args : List α) : s.KeywordsFit args [] :=
  ⟨by simp, by simp, .inr (by simp)⟩

variable {s} {function : String} {defaults : Defaults α} {args : List α}
  {keywords : List (String × α)} {e : BindingError}

/-- A parameter that has a value already got it by its place or from a keyword. -/
theorem given?_ne_none_iff {i : Nat} {name : String} (here : s.names[i]? = some name) :
    s.given? args keywords i name ≠ none ↔
      name ∈ s.positional.take args.length ∨
        name ∈ s.names ∧ name ∈ keywords.map Prod.fst := by
  have declared : name ∈ s.names := List.mem_of_getElem? here
  rw [Ne, given?_eq_none_iff, s.mem_take_positional_iff here, not_and_or, not_not]
  simp only [declared, true_and, Classical.not_imp, Nat.not_le]

theorem placeKeyword_eq_error_iff {placed : List (String × α)} {keyword : String × α} :
    Binding.placeKeyword function s.parameters (s.filled args placed) keyword = .error e ↔
      (keyword.1 ∈ s.positional.take args.length ∨
          keyword.1 ∈ s.names ∧ keyword.1 ∈ placed.map Prod.fst) ∧
          e = .duplicateArgument function keyword.1 ∨
        (keyword.1 ∉ s.names ∧ s.extra = none) ∧ e = .unexpectedKeyword function keyword.1 := by
  unfold Binding.placeKeyword
  cases hi : s.parameters.indexOf? keyword.1 with
  | some i =>
    have here := s.indexOf?_eq_some_iff.mp hi
    have declared : keyword.1 ∈ s.names := List.mem_of_getElem? here
    have slot : (s.filled args placed).slots[i]? = some (s.given? args placed i keyword.1) := by
      simp only [filled, List.getElem?_mapIdx, here, Option.map_some]
    rw [← given?_ne_none_iff here]
    simp only [slot, s.nameAt_parameters here, declared, not_true_eq_false, false_and, or_false]
    cases s.given? args placed i keyword.1 <;> simp [eq_comm]
  | none =>
    have undeclared := s.indexOf?_eq_none_iff.mp hi
    have unplaced : keyword.1 ∉ s.positional.take args.length := fun there =>
      undeclared (List.mem_append_left _ (List.mem_of_mem_take there))
    simp only [undeclared, unplaced, parameters_collectsKeywords, false_and, or_self, false_or,
      not_false_eq_true, true_and]
    cases s.extra <;> simp [eq_comm]

/-- Keywords are refused at the first that does not fit. -/
theorem foldlM_placeKeyword_eq_error_iff :
    keywords.foldlM (Binding.placeKeyword function s.parameters) (s.filled args []) = .error e ↔
      ∃ before keyword after, keywords = before ++ keyword :: after ∧
        s.KeywordsFit args before ∧
        Binding.placeKeyword function s.parameters (s.filled args before) keyword = .error e := by
  simp only [Binding.foldlM_eq_error_iff,
    s.foldlM_placeKeyword function (s.keywordsFit_nil args), List.nil_append]
  constructor
  · rintro ⟨before, keyword, after, _, split, ⟨fit, rfl⟩, refused⟩
    exact ⟨before, keyword, after, split, fit, refused⟩
  · rintro ⟨before, keyword, after, split, fit, refused⟩
    exact ⟨before, keyword, after, _, split, ⟨fit, rfl⟩, refused⟩

/-- A positional parameter has a default, whatever the number of defaults, unless there are too few
of them to get back to it. -/
theorem positionalDefault?_eq_none_iff (values : List α) {i : Nat} (hi : i < s.positional.length) :
    Binding.positionalDefault? s.parameters values i = none ↔
      values.length + i < s.positional.length := by
  simp only [Binding.positionalDefault?, parameters_positional]
  split
  · rw [List.getElem?_eq_none_iff]
    omega
  · exact iff_of_true rfl (by omega)

/-- A positional parameter is lacking when nothing is given for it and no default gets back to
it. -/
theorem lacksPositional_iff {i : Nat} {name : String} (here : s.names[i]? = some name) :
    s.LacksPositional defaults args keywords i name ↔
      i < s.positional.length ∧ s.given? args keywords i name = none ∧
        defaults.positional.length + i < s.positional.length := by
  rw [given?_eq_none_iff]
  constructor
  · rintro ⟨⟨declared, unplaced, unnamed⟩, noDefault⟩
    exact ⟨by omega, ⟨fun _ => unplaced, unnamed⟩, noDefault⟩
  · rintro ⟨hi, ⟨unplaced, unnamed⟩, noDefault⟩
    rw [names, List.getElem?_append_left hi] at here
    exact ⟨⟨here, unplaced hi, unnamed⟩, noDefault⟩

/-- A keyword-only parameter is lacking when nothing is given for it and it has no default. -/
theorem lacksKeywordOnly_iff (args : List α) {i : Nat} {name : String}
    (here : s.names[i]? = some name)
    (hi : s.positional.length ≤ i) :
    s.LacksKeywordOnly defaults keywords (i - s.positional.length) name ↔
      s.given? args keywords i name = none ∧ name ∉ defaults.keywordOnly.keys := by
  rw [given?_eq_none_iff]
  constructor
  · rintro ⟨-, unnamed, noDefault⟩
    exact ⟨⟨by omega, unnamed⟩, noDefault⟩
  · rintro ⟨⟨-, unnamed⟩, noDefault⟩
    rw [names, List.getElem?_append_right hi] at here
    exact ⟨here, unnamed, noDefault⟩

theorem complete_eq_error_iff {i : Nat} {name : String} (here : s.names[i]? = some name) :
    Binding.complete function s.parameters defaults (s.given? args keywords i name, i) =
        .error e ↔
      s.LacksPositional defaults args keywords i name ∧ e = .missingPositional function name ∨
        (s.positional.length ≤ i ∧
            s.LacksKeywordOnly defaults keywords (i - s.positional.length) name) ∧
          e = .missingKeywordOnly function name := by
  by_cases hi : i < s.positional.length
  · have early : ¬ s.positional.length ≤ i := by omega
    rw [lacksPositional_iff here,
      ← positionalDefault?_eq_none_iff defaults.positional hi]
    cases s.given? args keywords i name with
    | some value => simp [Binding.complete, early]
    | none =>
      simp only [Binding.complete, parameters_positional, s.nameAt_parameters here, hi, if_true]
      cases Binding.positionalDefault? s.parameters defaults.positional i <;>
        simp [early, eq_comm]
  · have late : s.positional.length ≤ i := by omega
    rw [lacksPositional_iff here, lacksKeywordOnly_iff args here late,
      ← Dict.contains_iff_mem_keys, Dict.contains_eq_isSome]
    cases s.given? args keywords i name with
    | some value => simp [Binding.complete]
    | none =>
      simp only [Binding.complete, parameters_positional, s.nameAt_parameters here, hi, if_false]
      cases defaults.keywordOnly.get? name <;> simp [late, eq_comm]

/-- A slot gets a value exactly if its parameter is not lacking. -/
theorem exists_complete_eq_ok_iff {i : Nat} {name : String} (here : s.names[i]? = some name) :
    (∃ value, Binding.complete function s.parameters defaults
        (s.given? args keywords i name, i) = .ok value) ↔
      ¬ s.LacksPositional defaults args keywords i name ∧
        (s.positional.length ≤ i →
          ¬ s.LacksKeywordOnly defaults keywords (i - s.positional.length) name) := by
  cases result : Binding.complete function s.parameters defaults
      (s.given? args keywords i name, i) with
  | ok value =>
    refine iff_of_true ⟨value, rfl⟩ ⟨fun lacks => ?_, fun late lacks => ?_⟩
    · cases result.symm.trans ((complete_eq_error_iff here).mpr (.inl ⟨lacks, rfl⟩))
    · cases result.symm.trans ((complete_eq_error_iff here).mpr (.inr ⟨⟨late, lacks⟩, rfl⟩))
  | error e =>
    refine iff_of_false (by simp) ?_
    rintro ⟨positional, keywordOnly⟩
    rcases (complete_eq_error_iff here).mp result with ⟨lacks, -⟩ | ⟨⟨late, lacks⟩, -⟩
    · exact positional lacks
    · exact keywordOnly late lacks

theorem zipIdx_filled_eq_some_iff {i : Nat} {x : Option α × Nat} :
    (s.filled args keywords).slots.zipIdx[i]? = some x ↔
      ∃ name, s.names[i]? = some name ∧ x = (s.given? args keywords i name, i) := by
  simp only [filled, List.getElem?_zipIdx, List.getElem?_mapIdx, Nat.zero_add,
    Option.map_eq_some_iff]
  constructor
  · rintro ⟨_, ⟨name, here, rfl⟩, rfl⟩
    exact ⟨name, here, rfl⟩
  · rintro ⟨name, here, rfl⟩
    exact ⟨_, ⟨name, here, rfl⟩, rfl⟩

/-- Slots are completed up to the first that is left without a value. -/
theorem mapM_complete_eq_error_iff :
    (s.filled args keywords).slots.zipIdx.mapM (Binding.complete function s.parameters defaults) =
        .error e ↔
      ∃ i name, s.names[i]? = some name ∧
        Binding.complete function s.parameters defaults (s.given? args keywords i name, i) =
          .error e ∧
        ∀ j other, j < i → s.names[j]? = some other →
          ¬ s.LacksPositional defaults args keywords j other ∧
            (s.positional.length ≤ j →
              ¬ s.LacksKeywordOnly defaults keywords (j - s.positional.length) other) := by
  rw [Binding.mapM_eq_error_iff]
  constructor
  · rintro ⟨i, _, slot, failed, earlier⟩
    obtain ⟨name, here, rfl⟩ := zipIdx_filled_eq_some_iff.mp slot
    refine ⟨i, name, here, failed, fun j other hj there => ?_⟩
    exact (exists_complete_eq_ok_iff there).mp
      (earlier j _ hj (zipIdx_filled_eq_some_iff.mpr ⟨other, there, rfl⟩))
  · rintro ⟨i, name, here, failed, earlier⟩
    refine ⟨i, _, zipIdx_filled_eq_some_iff.mpr ⟨name, here, rfl⟩, failed,
      fun j x hj slot => ?_⟩
    obtain ⟨other, there, rfl⟩ := zipIdx_filled_eq_some_iff.mp slot
    exact (exists_complete_eq_ok_iff there).mpr (earlier j other hj there)

theorem names_of_positional {i : Nat} {name : String} (declared : s.positional[i]? = some name) :
    s.names[i]? = some name := by
  have hi := (List.getElem?_eq_some_iff.mp declared).1
  rw [names, List.getElem?_append_left hi, declared]

/-- A keyword-only parameter comes after all positional ones. -/
theorem names_of_keywordOnly {i : Nat} {name : String}
    (declared : s.keywordOnly.flatten[i]? = some name) :
    s.names[s.positional.length + i]? = some name := by
  rw [names, List.getElem?_append_right (by omega), Nat.add_sub_cancel_left, declared]

/-- Arguments have no place beyond the positional parameters when nothing collects them. -/
theorem not_room (many : s.positional.length < args.length) (closed : s.rest = none) :
    ¬ (args.length ≤ s.positional.length ∨ s.rest.isSome = true) := by
  simp [closed, many]

/-- Keywords do not fit when one of them is for a parameter that is filled. -/
theorem not_fit_of_filled {before after : List (String × α)} {name : String} {value : α}
    (split : keywords = before ++ (name, value) :: after)
    (filled : name ∈ s.positional.take args.length ∨ name ∈ s.names ∧ name ∈ before.map Prod.fst) :
    ¬ s.KeywordsFit args keywords := by
  subst split
  intro fit
  rcases filled with placed | ⟨declared, again⟩
  · exact fit.unfilled _ placed (by simp)
  · have total := fit.once _ declared
    have := List.count_pos_iff.mpr again
    rw [List.map_append, List.count_append, List.map_cons, List.count_cons_self] at total
    omega

/-- Keywords do not fit when one of them names no parameter and nothing collects it. -/
theorem not_fit_of_undeclared {before after : List (String × α)} {name : String} {value : α}
    (split : keywords = before ++ (name, value) :: after) (undeclared : name ∉ s.names)
    (closed : s.extra = none) : ¬ s.KeywordsFit args keywords := by
  subst split
  intro fit
  have known := fit.expected.resolve_left (by simp [closed])
  exact undeclared (known _ List.mem_append_cons_self)

/-- When all arguments have a place, the fault is the first parameter without a value. -/
theorem mapM_complete_eq_error_iff_fault
    (room : args.length ≤ s.positional.length ∨ s.rest.isSome) (fit : s.KeywordsFit args keywords) :
    (s.filled args keywords).slots.zipIdx.mapM (Binding.complete function s.parameters defaults) =
        .error e ↔
      s.Fault function defaults args keywords e := by
  rw [mapM_complete_eq_error_iff]
  -- Slots of positional parameters come before all others, so the first slot without a value is the
  -- first of its kind, and one of a keyword-only parameter leaves no positional one lacking.
  constructor
  · rintro ⟨i, name, here, failed, earlier⟩
    rcases (complete_eq_error_iff here).mp failed with ⟨lacks, rfl⟩ | ⟨⟨late, lacks⟩, rfl⟩
    · refine .missingPositional room fit lacks fun j other lacks' => Nat.le_of_not_lt fun hj => ?_
      exact (earlier j other hj (names_of_positional lacks'.declared)).1 lacks'
    · refine .missingKeywordOnly room fit (fun j other lacks' => ?_) lacks fun j other lacks' =>
        Nat.le_of_not_lt fun hj => ?_
      · have hj := (List.getElem?_eq_some_iff.mp lacks'.declared).1
        exact (earlier j other (by omega) (names_of_positional lacks'.declared)).1 lacks'
      · have there := names_of_keywordOnly lacks'.declared
        refine (earlier _ other (by omega) there).2 (by omega) ?_
        rwa [Nat.add_sub_cancel_left]
  · intro fault
    cases fault with
    | tooManyPositional many closed => exact absurd room (not_room many closed)
    | duplicateArgument _ split _ filled => exact absurd fit (not_fit_of_filled split filled)
    | unexpectedKeyword _ split _ undeclared closed =>
      exact absurd fit (not_fit_of_undeclared split undeclared closed)
    | missingPositional _ _ lacks first =>
      have here := names_of_positional lacks.declared
      have hi := (List.getElem?_eq_some_iff.mp lacks.declared).1
      refine ⟨_, _, here, (complete_eq_error_iff here).mpr (.inl ⟨lacks, rfl⟩),
        fun j other hj _ => ⟨fun lacks' => ?_, fun late => ?_⟩⟩
      · have := first j other lacks'
        omega
      · omega
    | @missingKeywordOnly i name _ _ positional lacks first =>
      have here := names_of_keywordOnly lacks.declared
      have place : s.positional.length + i - s.positional.length = i := Nat.add_sub_cancel_left ..
      refine ⟨_, name, here, (complete_eq_error_iff here).mpr
        (.inr ⟨⟨Nat.le_add_right .., by rwa [place]⟩, rfl⟩),
        fun j other hj _ => ⟨positional j other, fun late lacks' => ?_⟩⟩
      have := first _ other lacks'
      omega

/-- The fault of a keyword is that of the first one that does not fit. -/
theorem foldlM_placeKeyword_eq_error_iff_fault
    (room : args.length ≤ s.positional.length ∨ s.rest.isSome)
    (unfit : ¬ s.KeywordsFit args keywords) :
    keywords.foldlM (Binding.placeKeyword function s.parameters) (s.filled args []) = .error e ↔
      s.Fault function defaults args keywords e := by
  rw [foldlM_placeKeyword_eq_error_iff]
  constructor
  · rintro ⟨before, ⟨name, value⟩, after, split, fit, refused⟩
    rcases placeKeyword_eq_error_iff.mp refused with ⟨filled, rfl⟩ | ⟨⟨undeclared, closed⟩, rfl⟩
    · exact .duplicateArgument room split fit filled
    · exact .unexpectedKeyword room split fit undeclared closed
  · intro fault
    cases fault with
    | tooManyPositional many closed => exact absurd room (not_room many closed)
    | duplicateArgument _ split fit filled =>
      exact ⟨_, _, _, split, fit, placeKeyword_eq_error_iff.mpr (.inl ⟨filled, rfl⟩)⟩
    | unexpectedKeyword _ split fit undeclared closed =>
      exact ⟨_, _, _, split, fit, placeKeyword_eq_error_iff.mpr (.inr ⟨⟨undeclared, closed⟩, rfl⟩)⟩
    | missingPositional _ fit | missingKeywordOnly _ fit => exact absurd fit unfit

/-- Binding fails with an error exactly if the call has that fault. -/
theorem bind_eq_error_iff_fault :
    s.parameters.bind function defaults args keywords = .error e ↔
      s.Fault function defaults args keywords e := by
  have none_placed := s.keywordsFit_nil args
  have start : ({ slots := Binding.place s.parameters args, extra := Dict.empty } :
      Binding.Partial α) = s.filled args [] := by
    rw [place_parameters]
    rfl
  rw [Parameters.bind_eq_error_iff, start]
  simp only [s.foldlM_placeKeyword function none_placed, List.nil_append, parameters_positional,
    parameters_collectsPositional]
  by_cases room : args.length ≤ s.positional.length ∨ s.rest.isSome = true
  · have fits : ¬ (s.positional.length < args.length ∧ s.rest.isSome = false) := fun refused =>
      not_room refused.1 (by simpa using refused.2) room
    simp only [room, fits, false_and, false_or, true_and]
    by_cases fit : s.KeywordsFit args keywords
    · have placed : keywords.foldlM (Binding.placeKeyword function s.parameters)
          (s.filled args []) = .ok (s.filled args keywords) :=
        (s.foldlM_placeKeyword function none_placed).mpr ⟨fit, rfl⟩
      simp only [placed, reduceCtorEq, false_or, fit, true_and, exists_eq_left]
      exact mapM_complete_eq_error_iff_fault room fit
    · simp only [fit, false_and, exists_false, or_false]
      exact foldlM_placeKeyword_eq_error_iff_fault room fit
  · have many : s.positional.length < args.length ∧ s.rest.isSome = false := by
      simpa using room
    simp only [room, false_and, or_false]
    simp only [many, and_self, true_and]
    constructor
    · rintro rfl
      exact .tooManyPositional many.1 (by simpa using many.2)
    · intro fault
      cases fault with
      | tooManyPositional => rfl
      | duplicateArgument fits | unexpectedKeyword fits | missingPositional fits
      | missingKeywordOnly fits => exact absurd fits room

end Signature
end Callables
