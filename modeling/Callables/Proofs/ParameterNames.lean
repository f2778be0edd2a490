import Callables.Proofs.Alignment
import Callables.Proofs.Closures

namespace Callables

def BindingError.parameter? : BindingError → Option String
  | .duplicateArgument _ parameter | .missingPositional _ parameter
  | .missingKeywordOnly _ parameter => some parameter
  | .tooManyPositional .. | .unexpectedKeyword .. => none

namespace Signature

variable {s : Signature}

theorem locals_parameters :
    s.parameters.locals =
      s.positional ++ (s.rest.toList ++ (s.keywordOnly.flatten ++ s.extra.toList)) := by
  rw [parameters_eq]
  simp only [List.append_assoc]

/-- The name that collects positional arguments is no keyword-only name. -/
theorem notMem_keywordOnly_of_rest {name : String} (collects : name ∈ s.rest.toList) :
    name ∉ s.keywordOnly.flatten := by
  have distinct := s.distinct
  simp only [List.nodup_append, List.mem_append] at distinct
  exact fun there => distinct.1.2.2 name (.inr collects) name there rfl

/-- A body reads the parameter that a keyword of the name fills. -/
theorem slotOf?_parameters (name : String) :
    s.parameters.slotOf? name = s.parameters.indexOf? name := by
  have start : s.parameters.keywordOnlyStart = s.positional.length + s.rest.toList.length := by
    cases h : s.rest <;> simp [Parameters.keywordOnlyStart, h]
  rw [indexOf?_parameters, names, Parameters.slotOf?, locals_parameters, start,
    parameters_positional, parameters_keywordOnly]
  simp only [List.findIdx?_append]
  -- the cases are the groups of the locals, in the order in which the name is looked for
  cases positional : s.positional.findIdx? (· == name) with
  | some i =>
    have inside := List.findIdx?_eq_some_iff_getElem.mp positional
    simp [inside.1]
  | none =>
    cases rest : s.rest.toList.findIdx? (· == name) with
    | some i =>
      obtain ⟨inside, here, -⟩ := List.findIdx?_eq_some_iff_getElem.mp rest
      have named : name ∈ s.rest.toList := eq_of_beq here ▸ List.getElem_mem inside
      have absent : s.keywordOnly.flatten.findIdx? (· == name) = none :=
        List.findIdx?_eq_none_iff.mpr fun other there =>
          beq_false_of_ne fun same => notMem_keywordOnly_of_rest named (same ▸ there)
      simp only [Option.some_or, Option.none_or, Option.map_some, Option.map_none, absent]
      rw [if_neg (by omega), if_neg (by omega)]
    | none =>
      cases keywordOnly : s.keywordOnly.flatten.findIdx? (· == name) with
      | some i =>
        have inside := (List.findIdx?_eq_some_iff_getElem.mp keywordOnly).1
        simp only [Option.some_or, Option.none_or, Option.map_some]
        rw [if_neg (by omega), if_pos (by omega)]
        exact congrArg some (by omega)
      | none =>
        cases extra : s.extra.toList.findIdx? (· == name) with
        | some i =>
          simp only [Option.none_or, Option.map_some, Option.map_none]
          rw [if_neg (by omega), if_neg (by omega)]
        | none => rfl

theorem size_parameters : s.parameters.size = s.names.length := by
  rw [Parameters.size, parameters_positional, parameters_keywordOnly, length_names]

theorem getElem?_names {i : Nat} (inside : i < s.parameters.size) :
    s.names[i]? = some (s.parameters.nameAt i) := by
  rw [size_parameters] at inside
  have here := List.getElem?_eq_getElem inside
  rw [here, s.nameAt_parameters here]

/-- The names that collect arguments are no parameters. -/
theorem notMem_names_of_collects {name : String}
    (collects : name ∈ s.rest.toList ++ s.extra.toList) : name ∉ s.names := by
  have distinct := s.distinct
  simp only [List.nodup_append, List.mem_append] at distinct
  obtain ⟨⟨⟨-, -, beforeRest⟩, -, beforeKeywordOnly⟩, -, beforeExtra⟩ := distinct
  intro there
  rcases List.mem_append.mp there with positional | keywordOnly <;>
    rcases List.mem_append.mp collects with rest | extra
  · exact beforeRest name positional name rest rfl
  · exact beforeExtra name (.inl (.inl positional)) name extra rfl
  · exact beforeKeywordOnly name (.inr rest) name keywordOnly rfl
  · exact beforeExtra name (.inr keywordOnly) name extra rfl

/-- The parameter that a fault names is one that was declared. -/
theorem mem_names_of_fault {α : Type} {function : String} {defaults : Defaults α} {args : List α}
    {keywords : List (String × α)} {e : BindingError} {name : String}
    (fault : s.Fault function defaults args keywords e) (about : e.parameter? = some name) :
    name ∈ s.names := by
  cases fault with
  | tooManyPositional | unexpectedKeyword => cases about
  | duplicateArgument _ _ _ filled =>
    obtain rfl := Option.some.inj about
    exact filled.elim (fun there => List.mem_append_left _ (List.mem_of_mem_take there)) And.left
  | missingPositional _ _ lacks =>
    obtain rfl := Option.some.inj about
    exact List.mem_append_left _ (List.mem_of_getElem? lacks.declared)
  | missingKeywordOnly _ _ _ lacks =>
    obtain rfl := Option.some.inj about
    exact List.mem_append_right _ (List.mem_of_getElem? lacks.declared)

theorem lookup_of_keywordsFit {α : Type} {args : List α} {keywords : List (String × α)}
    (fit : s.KeywordsFit args keywords) {keyword : String × α} (given : keyword ∈ keywords)
    (declared : keyword.1 ∈ s.names) : keywords.lookup keyword.1 = some keyword.2 := by
  obtain ⟨before, after, rfl⟩ := List.append_of_mem given
  have once := fit.once keyword.1 declared
  rw [List.map_append, List.map_cons, List.count_append, List.count_cons_self] at once
  have earlier : before.lookup keyword.1 = none := by
    rw [List.lookup_eq_none_iff]
    intro other there
    refine bne_iff_ne.mpr fun same => ?_
    have again := List.count_pos_iff.mpr (same ▸ List.mem_map_of_mem (f := Prod.fst) there)
    omega
  rw [List.lookup_append, earlier, Option.none_or, List.lookup_cons_self]

/-- What is given by keyword is bound to the parameter of that name. -/
theorem given?_of_keyword {α : Type} {args : List α} {keywords : List (String × α)}
    (fit : s.KeywordsFit args keywords) {keyword : String × α} (given : keyword ∈ keywords)
    {i : Nat} (here : s.names[i]? = some keyword.1) :
    s.given? args keywords i keyword.1 = some keyword.2 := by
  have declared := List.mem_of_getElem? here
  have unplaced : (if i < s.positional.length then args[i]? else none) = none := by
    split
    · rename_i hi
      refine List.getElem?_eq_none (Nat.le_of_not_lt fun placed => ?_)
      exact fit.unfilled keyword.1 ((s.mem_take_positional_iff here).mpr ⟨hi, placed⟩)
        (List.mem_map_of_mem given)
    · rfl
  rw [given?, unplaced, Option.none_or, lookup_of_keywordsFit fit given declared]

structure FindsNames (s : Signature) : Prop where
  /-- A keyword of the name of a parameter fills that parameter, and a body reads it. -/
  found : ∀ i, i < s.parameters.size →
    s.parameters.indexOf? (s.parameters.nameAt i) = some i ∧
      s.parameters.slotOf? (s.parameters.nameAt i) = some i
  /-- Any other name is that of no parameter, the names that collect arguments among them. -/
  other : ∀ name, name ∉ s.names →
    s.parameters.indexOf? name = none ∧ s.parameters.slotOf? name = none
  collects : ∀ name ∈ s.rest.toList ++ s.extra.toList, name ∉ s.names
  /-- An error that is about a parameter names it as it is found. -/
  errors : ∀ {α : Type} (function : String) (defaults : Defaults α) (args : List α)
    (keywords : List (String × α)) (e : BindingError) (name : String),
    s.parameters.bind function defaults args keywords = .error e → e.parameter? = some name →
      ∃ i, i < s.parameters.size ∧ s.parameters.nameAt i = name

/-- What a body reads on a frame: under the name of a parameter the value that was bound to it, and
nothing under any other name. -/
structure Reads (s : Signature) (bound : Bound Value) (keywords : List (String × Value))
    (frame : Frame) : Prop where
  parameter : ∀ i, i < s.parameters.size → ∃ value, bound.parameters[i]? = some value ∧
    frame.parameter? (s.parameters.nameAt i) = some value
  /-- A value that is given by keyword is read under the keyword. -/
  keyword : ∀ k ∈ keywords, k.1 ∈ s.names → frame.parameter? k.1 = some k.2
  other : ∀ name, name ∉ s.names → frame.parameter? name = none

theorem findsNames (s : Signature) : s.FindsNames where
  found i inside := by
    have here := s.indexOf?_eq_some_iff.mpr (getElem?_names inside)
    exact ⟨here, (slotOf?_parameters _).trans here⟩
  other name undeclared := by
    have absent := s.indexOf?_eq_none_iff.mpr undeclared
    exact ⟨absent, (slotOf?_parameters _).trans absent⟩
  collects name := notMem_names_of_collects
  errors function defaults args keywords e name failed about := by
    have declared := mem_names_of_fault (bind_eq_error_iff_fault.mp failed) about
    obtain ⟨i, here⟩ := List.mem_iff_getElem?.mp declared
    exact ⟨i, size_parameters ▸ (List.getElem?_eq_some_iff.mp here).1, s.nameAt_parameters here⟩

/-- The frame of a call that binds reads what was bound. -/
theorem reads_of_bind {function : String} {defaults : Defaults Value} {args : List Value}
    {keywords : List (String × Value)} {bound : Bound Value} {frame : Frame}
    (ok : s.parameters.bind function defaults args keywords = .ok bound)
    (layout : frame.code.parameters = s.parameters)
    (values : frame.parameters = bound.parameters) : s.Reads bound keywords frame := by
  rw [← bind_used] at ok
  obtain ⟨-, fit, binds⟩ := (s.bind_eq_ok_iff function length_used_le).mp ok
  have read {i : Nat} {name : String} (here : s.names[i]? = some name) :
      frame.parameter? name = bound.parameters[i]? := by
    rw [Frame.parameter?, layout, slotOf?_parameters, s.indexOf?_eq_some_iff.mpr here,
      Option.bind_some, Frame.argument?, values]
  refine ⟨fun i inside => ?_, fun k given declared => ?_, fun name undeclared => ?_⟩
  · have here := getElem?_names inside
    have filled : i < bound.parameters.length := by
      rw [binds.size, ← length_names, ← size_parameters]
      exact inside
    exact ⟨_, List.getElem?_eq_getElem filled, (read here).trans (List.getElem?_eq_getElem filled)⟩
  · obtain ⟨i, here⟩ := List.mem_iff_getElem?.mp declared
    rw [read here, binds.parameter i k.1 here, given?_of_keyword fit given here, Option.some_or]
  · rw [Frame.parameter?, layout, slotOf?_parameters, s.indexOf?_eq_none_iff.mpr undeclared]
    rfl

/-- Binder, errors and frame mean the same parameter by a name. In the documented layout the
name of a parameter is found at its index, by keyword and by the body, and every other name at none.
A frame with what a call has bound reads under each name the value of that parameter, and that is
such a frame on which the body of a host-language call runs. -/
theorem names_address_parameters (s : Signature) :
    s.FindsNames ∧
    (∀ function defaults args keywords bound frame,
      s.parameters.bind function defaults args keywords = .ok bound →
        frame.code.parameters = s.parameters → frame.parameters = bound.parameters →
          s.Reads bound keywords frame) ∧
    ∀ (rt : Runtime) (lead : Value) (view : ArgsView) (host : HostCall) (call : Callee),
      rt.hostCall lead view = .ok host → host.code.parameters = s.parameters →
        ∃ frame rt', s.Reads host.bound view.keywords.byName frame ∧
          (Activity.runHost call lead view).run rt =
            (Activity.holding (frame.held ++ host.snapshot) (Activity.reported .call
              (fun _ => .ret) host.name (evaluate call frame host.code.body))).run rt' := by
  refine ⟨s.findsNames, fun _ _ _ _ _ _ ok layout values => reads_of_bind ok layout values, ?_⟩
  intro rt lead view host call ok layout
  obtain ⟨defaults, args, bound⟩ := Runtime.exists_bind_of_hostCall ok
  obtain ⟨frame, rt', frames, -, ran⟩ := Runtime.run_runHost_on_frame ok call
  rw [layout] at bound
  exact ⟨frame, rt', reads_of_bind bound (frames.code ▸ layout) frames.parameters, ran⟩

def collecting : Signature where
  positional := ["first"]
  rest := some "rest"
  keywordOnly := [["key"]]
  extra := some "extra"
  distinct := by decide
  few_positional := by decide
  few_keywordOnly := by decide

def collected : Bound Value :=
  ⟨[.int 1, .int 2], some [.int 5], some (.ofList [("other", .int 9)])⟩

def collectedFrame : Frame where
  function := .none
  code := ⟨⟨0, "f"⟩, ⟨0, "f"⟩, none, collecting.parameters, [], .parameter "key"⟩
  parameters := collected.parameters
  positional := none
  keywords := none

theorem collecting_reads :
    collecting.parameters.bind "f" ⟨[], .empty⟩ [.int 1, .int 5]
        [("other", .int 9), ("key", .int 2)] = .ok collected ∧
      collectedFrame.parameter? "key" = some (.int 2) ∧
        collectedFrame.parameter? "rest" = none ∧ collectedFrame.parameter? "other" = none := by
  have ok : collecting.parameters.bind "f" ⟨[], .empty⟩ [.int 1, .int 5]
      [("other", .int 9), ("key", .int 2)] = .ok collected := rfl
  have reads := collecting.names_address_parameters.2.1 _ _ _ _ _ collectedFrame ok rfl rfl
  exact ⟨ok, reads.keyword ("key", .int 2) (by decide) (by decide), reads.other "rest" (by decide),
    reads.other "other" (by decide)⟩

end Signature
end Callables
