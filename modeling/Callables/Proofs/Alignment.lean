import Callables.Proofs.HostCalls

namespace Callables
namespace Signature

variable {α : Type} (s : Signature)

def ReportsMissing (function : String) (defaults : Defaults α) (args : List α)
    (keywords : List (String × α)) : Prop :=
  ∀ i name, s.LacksPositional defaults args keywords i name →
    (∃ e, s.parameters.bind function defaults args keywords = .error e) ∧
      ((args.length ≤ s.positional.length ∨ s.rest.isSome) → s.KeywordsFit args keywords →
        ∃ j other, s.LacksPositional defaults args keywords j other ∧
          (∀ k another, s.LacksPositional defaults args keywords k another → j ≤ k) ∧
          s.parameters.bind function defaults args keywords =
            .error (.missingPositional function other))

/-- The defaults belong to the last positional parameters, however many there are: an open parameter
gets the one that stands as far from the end as itself, and is missing if the list does not get back
to it. -/
structure AlignsDefaults (function : String) (defaults : Defaults α) (args : List α)
    (keywords : List (String × α)) : Prop where
  received : ∀ bound, s.parameters.bind function defaults args keywords = .ok bound →
    ∀ i name, s.LeavesOpen args keywords i name →
      s.positional.length ≤ defaults.positional.length + i ∧
        bound.parameters[i]? =
          defaults.positional[defaults.positional.length + i - s.positional.length]?
  missing : s.ReportsMissing function defaults args keywords

/-- The defaults that binding uses: no more than there are positional parameters, from the front. -/
def used (defaults : Defaults α) : Defaults α :=
  { defaults with positional := defaults.positional.take s.positional.length }

variable {s} {function : String} {defaults : Defaults α} {args : List α}
  {keywords : List (String × α)}

theorem positionalDefault?_take (values : List α) {i : Nat} (hi : i < s.positional.length) :
    Binding.positionalDefault? s.parameters (values.take s.positional.length) i =
      Binding.positionalDefault? s.parameters values i := by
  have first : s.positional.length - (values.take s.positional.length).length =
      s.positional.length - values.length := by
    rw [List.length_take]
    omega
  simp only [Binding.positionalDefault?, parameters_positional, first]
  rw [List.getElem?_take_of_lt (by omega)]

/-- Defaults beyond the number of parameters play no part. -/
theorem bind_used :
    s.parameters.bind function (s.used defaults) args keywords =
      s.parameters.bind function defaults args keywords := by
  have completes : Binding.complete function s.parameters (s.used defaults) =
      Binding.complete function s.parameters defaults := by
    funext ⟨slot, i⟩
    cases slot with
    | some value => rfl
    | none =>
      simp only [Binding.complete, parameters_positional]
      by_cases hi : i < s.positional.length
      · simp only [hi, if_true, used, positionalDefault?_take _ hi]
      · simp only [hi, if_false, used]
  unfold Parameters.bind
  rw [completes]

theorem length_used_le : (s.used defaults).positional.length ≤ s.positional.length :=
  List.length_take_le ..

theorem accepts_used_iff :
    s.Accepts (s.used defaults) args keywords ↔ s.Accepts defaults args keywords := by
  have first : s.positional.length - (s.used defaults).positional.length =
      s.positional.length - defaults.positional.length := by
    rw [used, List.length_take]
    omega
  constructor
  · rintro ⟨room, fit, positional, keywordOnly⟩
    rw [first] at positional
    exact ⟨room, fit, positional, keywordOnly⟩
  · rintro ⟨room, fit, positional, keywordOnly⟩
    rw [← first] at positional
    exact ⟨room, fit, positional, keywordOnly⟩

/-- Binding succeeds on the accepted calls, however many defaults there are. -/
theorem exists_bind_eq_ok_iff :
    (∃ bound, s.parameters.bind function defaults args keywords = .ok bound) ↔
      s.Accepts defaults args keywords := by
  rw [← accepts_used_iff, ← bind_used]
  simp only [s.bind_eq_ok_iff function length_used_le]
  constructor
  · rintro ⟨bound, room, fit, binds⟩
    have valued := (s.forall_isSome_iff length_used_le).mp fun i name here => by
      rw [← binds.parameter i name here, isSome_getElem?, binds.size, ← length_names]
      exact (List.getElem?_eq_some_iff.mp here).1
    exact ⟨room, fit, valued.1, valued.2⟩
  · intro accepts
    obtain ⟨bound, binds⟩ := Accepts.exists_binds s length_used_le accepts
    exact ⟨bound, accepts.room, accepts.fit, binds⟩

/-- What an open parameter gets: its default counted from the front, where the list is not too short
to get back to it. -/
theorem getElem?_of_leavesOpen {bound : Bound α}
    (ok : s.parameters.bind function defaults args keywords = .ok bound) {i : Nat} {name : String}
    (opened : s.LeavesOpen args keywords i name) :
    s.positional.length ≤ defaults.positional.length + i ∧
      bound.parameters[i]? =
        defaults.positional[i - (s.positional.length - defaults.positional.length)]? := by
  have hi := (List.getElem?_eq_some_iff.mp opened.declared).1
  -- Of the defaults in use there are not too many, so binding is known to count them from the end.
  rw [← bind_used] at ok
  obtain ⟨-, -, binds⟩ := (s.bind_eq_ok_iff function length_used_le).mp ok
  have unfilled := s.given?_eq_none_iff.mpr ⟨fun _ => opened.unplaced, opened.unnamed⟩
  have value : bound.parameters[i]? =
      Binding.positionalDefault? s.parameters defaults.positional i := by
    rw [binds.parameter i name (names_of_positional opened.declared), unfilled, Option.none_or,
      default?, if_pos hi, ← s.positionalDefault?_parameters length_used_le hi]
    exact positionalDefault?_take _ hi
  have valued : bound.parameters[i]? ≠ none := by
    rw [Ne, List.getElem?_eq_none_iff, binds.size]
    omega
  rw [value, Ne, positionalDefault?_eq_none_iff _ hi] at valued
  refine ⟨by omega, value.trans ?_⟩
  rw [Binding.positionalDefault?, parameters_positional, if_pos (by omega)]

theorem reportsMissing : s.ReportsMissing function defaults args keywords := by
  intro i name lacks
  have fails : ¬ ∃ bound, s.parameters.bind function defaults args keywords = .ok bound := by
    rw [exists_bind_eq_ok_iff]
    intro accepts
    have := accepts.positional i name lacks.declared lacks.unplaced lacks.unnamed
    have := lacks.noDefault
    omega
  cases result : s.parameters.bind function defaults args keywords with
  | ok bound => exact absurd ⟨bound, result⟩ fails
  | error e =>
    refine ⟨⟨e, rfl⟩, fun room fit => ?_⟩
    cases bind_eq_error_iff_fault.mp result with
    | tooManyPositional many closed => exact absurd room (not_room many closed)
    | duplicateArgument _ split _ filled => exact absurd fit (not_fit_of_filled split filled)
    | unexpectedKeyword _ split _ undeclared closed =>
      exact absurd fit (not_fit_of_undeclared split undeclared closed)
    | missingPositional _ _ lacks first => exact ⟨_, _, lacks, first, rfl⟩
    | missingKeywordOnly _ _ positional => exact absurd lacks (positional i name)

/-- Defaults are aligned when there are no more of them than parameters, or else when those that an
open parameter gets and those that belong to it have the same values. -/
theorem alignsDefaults_iff :
    s.AlignsDefaults function defaults args keywords ↔
      defaults.positional.length ≤ s.positional.length ∨
        (s.Accepts defaults args keywords → ∀ i name, s.LeavesOpen args keywords i name →
          defaults.positional[i]? =
            defaults.positional[defaults.positional.length + i - s.positional.length]?) := by
  constructor
  · rintro ⟨received, -⟩
    by_cases few : defaults.positional.length ≤ s.positional.length
    · exact .inl few
    · refine .inr fun accepts i name opened => ?_
      obtain ⟨bound, ok⟩ := exists_bind_eq_ok_iff.mpr accepts
      have first : i - (s.positional.length - defaults.positional.length) = i := by omega
      have gets := (getElem?_of_leavesOpen ok opened).2
      rw [first] at gets
      exact gets.symm.trans (received bound ok i name opened).2
  · intro agree
    refine ⟨fun bound ok i name opened => ?_, reportsMissing⟩
    obtain ⟨reaches, gets⟩ := getElem?_of_leavesOpen ok opened
    refine ⟨reaches, gets.trans ?_⟩
    by_cases few : defaults.positional.length ≤ s.positional.length
    · congr 1
      omega
    · have same := agree.resolve_left few (exists_bind_eq_ok_iff.mp ⟨bound, ok⟩) i name opened
      have first : i - (s.positional.length - defaults.positional.length) = i := by omega
      rw [first, same]

/-- What open parameters get of the positional defaults, whatever their number. Binding succeeds
exactly on the accepted calls; an open parameter without a default is reported missing. Any other
gets the default that stands as far from the end as itself when there are no more defaults than
parameters, and the one at its own place when there are more. So the defaults are aligned with the
last parameters exactly if there are no more of them, or if that makes no difference to the values.
Calls of functions bind the defaults that the function has at that time. -/
theorem defaults_of_open_parameters (s : Signature) :
    (∀ {α : Type} (function : String) (defaults : Defaults α) (args : List α)
      (keywords : List (String × α)),
      ((∃ bound, s.parameters.bind function defaults args keywords = .ok bound) ↔
        s.Accepts defaults args keywords) ∧
      s.ReportsMissing function defaults args keywords ∧
      (∀ bound, s.parameters.bind function defaults args keywords = .ok bound →
        ∀ i name, s.LeavesOpen args keywords i name →
          s.positional.length ≤ defaults.positional.length + i ∧
            bound.parameters[i]? =
              defaults.positional[i - (s.positional.length - defaults.positional.length)]?) ∧
      (s.AlignsDefaults function defaults args keywords ↔
        defaults.positional.length ≤ s.positional.length ∨
          (s.Accepts defaults args keywords → ∀ i name, s.LeavesOpen args keywords i name →
            defaults.positional[i]? =
              defaults.positional[defaults.positional.length + i - s.positional.length]?))) ∧
    ∀ (rt : Runtime) callee receiver m c, rt.Hosts callee receiver m c →
      c.parameters = s.parameters → ∀ view host, rt.hostCall callee view = .ok host →
        s.parameters.bind m.qualname.content (rt.defaultsOf m) (receiver.toList ++ view.positional)
          view.keywords.byName = .ok host.bound := by
  refine ⟨fun function defaults args keywords => ⟨exists_bind_eq_ok_iff, reportsMissing,
    fun bound ok i name opened => getElem?_of_leavesOpen ok opened, alignsDefaults_iff⟩, ?_⟩
  intro rt callee receiver m c hosts layout view host ok
  exact layout ▸ hosts.bind_of_hostCall ok

def single : Signature where
  positional := ["x"]
  rest := none
  keywordOnly := []
  extra := none
  distinct := by decide
  few_positional := by decide
  few_keywordOnly := by decide

end Signature

namespace Session

def surplus : Session :=
  (start .standard .empty).run [
    (.newCode ⟨"f", none, none, Signature.single.parameters, [], .parameter "x"⟩, some "code"),
    (.newHostFunction (.kept "code") (.dict []) none none, some "f"),
    (.setAttribute (.kept "f") "__defaults__" (.tuple [.int 1, .int 2]), none)]

theorem surplus_reachable : surplus.Reachable :=
  (Reachable.start _ _).run (by decide +kernel)

theorem surplus_hosts : ∃ m c, surplus.runtime.Hosts (.object 2) none m c ∧
    c.parameters = Signature.single.parameters ∧
    surplus.runtime.defaultsOf m = ⟨[.int 1, .int 2], Dict.empty⟩ := by
  have made : (surplus.runtime.hosted? (.object 2)).map (fun host =>
      (host.1, host.2.2.parameters, (surplus.runtime.defaultsOf host.2.1).positional,
        (surplus.runtime.defaultsOf host.2.1).keywordOnly)) =
      some (none, Signature.single.parameters, [.int 1, .int 2], Dict.empty) := by
    decide +kernel
  obtain ⟨⟨receiver, m, c⟩, found, same⟩ := Option.map_eq_some_iff.mp made
  obtain ⟨rfl, layout, positional, keywordOnly⟩ := by simpa using same
  exact ⟨m, c, Runtime.hosts_of_hosted? found, layout, by rw [← positional, ← keywordOnly]⟩

end Session

namespace Signature

/-- The only parameter gets the first of the two defaults. -/
theorem surplus_defaults :
    ∃ host, Session.surplus.runtime.hostCall (.object 2) (.ofCall [] []) = .ok host ∧
      host.bound.parameters[0]? = some (.int 1) := by
  obtain ⟨m, c, hosts, layout, defaults⟩ := Session.surplus_hosts
  have spread := single.defaults_of_open_parameters
  have runs : (Session.surplus.runtime.hostCall (.object 2) (.ofCall [] [])).isOk = true := by
    decide +kernel
  cases ok : Session.surplus.runtime.hostCall (.object 2) (.ofCall [] []) with
  | error e =>
    rw [ok] at runs
    cases runs
  | ok host =>
    have bound := spread.2 _ _ _ _ _ hosts layout _ _ ok
    rw [defaults] at bound
    obtain ⟨-, gets⟩ := (spread.1 _ _ _ _).2.2.1 _ bound 0 "x" ⟨rfl, Nat.le_refl 0, by decide⟩
    exact ⟨host, rfl, gets⟩

/-- Two defaults for one parameter: the call answers with the first of them, while the one that
belongs to the last parameter is the second. -/
theorem surplus_not_aligned :
    Session.surplus.Reachable ∧
      ((Activity.call (.object 2) [] []).run Session.surplus.runtime).1 = .ok (.int 1) ∧
      ∃ m c, Session.surplus.runtime.Hosts (.object 2) none m c ∧
        c.parameters = single.parameters ∧
        (Session.surplus.runtime.defaultsOf m).positional = [.int 1, .int 2] ∧
        ¬ single.AlignsDefaults m.qualname.content
          (Session.surplus.runtime.defaultsOf m) [] [] := by
  obtain ⟨m, c, hosts, layout, defaults⟩ := Session.surplus_hosts
  refine ⟨Session.surplus_reachable, by decide +kernel, m, c, hosts, layout,
    congrArg Defaults.positional defaults, fun aligned => ?_⟩
  rw [defaults] at aligned
  rcases alignsDefaults_iff.mp aligned with few | agree
  · exact absurd few (by decide)
  · have accepts : single.Accepts (⟨[.int 1, .int 2], Dict.empty⟩ : Defaults Value) [] [] := {
      room := .inl (Nat.zero_le _)
      fit := single.keywordsFit_nil _
      positional := fun _ _ _ _ _ => Nat.zero_le _
      keywordOnly := nofun }
    have same := agree accepts 0 "x" ⟨rfl, Nat.le_refl 0, List.not_mem_nil⟩
    exact absurd same (by decide)

end Signature
end Callables
