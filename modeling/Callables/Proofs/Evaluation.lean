import Callables.Evaluate
import Callables.Proofs.Attributes

namespace Callables

structure Frame.Known (rt : Runtime) (frame : Frame) : Prop where
  function : rt.Knows frame.function
  parameters : rt.KnowsAll frame.parameters
  positional : ∀ v, frame.positional = some v → rt.Knows v
  keywords : ∀ v, frame.keywords = some v → rt.Knows v

namespace Frame

variable {rt rt' : Runtime} {frame : Frame}

theorem Known.grow (h : frame.Known rt) (grows : rt.Grows rt') : frame.Known rt' :=
  ⟨grows.knows h.function, grows.knowsAll h.parameters,
    fun v hv => grows.knows (h.positional v hv), fun v hv => grows.knows (h.keywords v hv)⟩

theorem Known.argument (h : frame.Known rt) {index : Nat} {v : Value}
    (hv : frame.argument? index = some v) : rt.Knows v :=
  h.parameters v (List.mem_of_getElem? hv)

theorem Known.parameter (h : frame.Known rt) {name : String} {v : Value}
    (hv : frame.parameter? name = some v) : rt.Knows v := by
  obtain ⟨i, _, hi⟩ := Option.bind_eq_some_iff.mp hv
  exact h.argument hi

theorem knows_metadata (sound : rt.Sound) {metadata : Metadata}
    (hm : frame.metadata? rt = some metadata) : metadata.Known rt := by
  obtain ⟨f, hf, hfm⟩ := Option.bind_eq_some_iff.mp hm
  exact sound.knows_metadata hf hfm

theorem knows_globals (sound : rt.Sound) {v : Value} (hv : frame.globals? rt = some v) :
    rt.Knows v := by
  obtain ⟨metadata, hm, rfl⟩ := Option.map_eq_some_iff.mp hv
  exact (knows_metadata sound hm).globals

theorem knows_global (sound : rt.Sound) {name : String} {v : Value}
    (hv : frame.global? rt name = some v) : rt.Knows v := by
  obtain ⟨entries, he, hn⟩ := Option.bind_eq_some_iff.mp hv
  obtain ⟨globals, hg, hd⟩ := Option.bind_eq_some_iff.mp he
  obtain ⟨o, ho, hod⟩ := Option.bind_eq_some_iff.mp hd
  obtain rfl := Object.dict?_eq_some.mp hod
  exact sound.knows_references ho v (Dict.mem_values_of_get? hn)

theorem knows_cell (sound : rt.Sound) {index : Nat} {v : Value}
    (hv : frame.cell? rt index = some v) : rt.Knows v := by
  obtain ⟨metadata, hm, hc⟩ := Option.bind_eq_some_iff.mp hv
  exact sound.knows_items metadata.closure v (List.mem_of_getElem? hc)

end Frame

namespace Runtime

/-- What a method call may run without a wrapper: an unbound function found on the class. -/
structure Unwrapped (rt : Runtime) (receiver : Value) (name : String) (method : Value)
    (f : Function) : Prop where
  hidden : (rt.ownAttributes? receiver).any (·.contains name) = false
  found : rt.types.lookup (rt.typeOf receiver).id name = some method
  binds : rt.bindsOnAccess method = true
  function : rt.baseFunction? method = some f
  unbound : f.receiver = none
  onInstance : f.entry.flags.has .static = false ∧ f.entry.flags.has .onClass = false
  lead : f.entry.flags.has .passFunction = true → f.entry.flags.has .host = true

theorem unwrapped_of_unboundMethod? {rt : Runtime} {receiver method : Value} {name : String}
    (h : rt.unboundMethod? receiver name = some method) :
    ∃ f, rt.Unwrapped receiver name method f := by
  have passed {b : Bool} {u : Unit} (hb : (guard (b = true) : Option Unit) = some u) :
      b = true := by
    cases b with
    | true => rfl
    | false => cases hb
  unfold unboundMethod? at h
  obtain ⟨_, hidden, h⟩ := Option.bind_eq_some_iff.mp h
  obtain ⟨attr, found, h⟩ := Option.bind_eq_some_iff.mp h
  obtain ⟨_, binds, h⟩ := Option.bind_eq_some_iff.mp h
  obtain ⟨f, hf, h⟩ := Option.bind_eq_some_iff.mp h
  obtain ⟨_, unbound, h⟩ := Option.bind_eq_some_iff.mp h
  obtain ⟨_, kind, h⟩ := Option.bind_eq_some_iff.mp h
  obtain ⟨_, lead, h⟩ := Option.bind_eq_some_iff.mp h
  obtain rfl := Option.some.inj h
  have hh := passed hidden
  have hu := passed unbound
  have hk := passed kind
  have hl := passed lead
  simp only [Bool.not_eq_true', Bool.or_eq_false_iff, Bool.and_eq_false_iff,
    Bool.not_eq_false', Function.isBound, Option.isSome_eq_false_iff,
    Option.isNone_iff_eq_none] at hh hu hk hl
  exact ⟨f, hh, found, passed binds, hf, hu, hk, fun hp => hl.resolve_left (by simp [hp])⟩

theorem Sound.knows_unboundMethod {rt : Runtime} (sound : rt.Sound) {receiver method : Value}
    {name : String} (h : rt.unboundMethod? receiver name = some method) : rt.Knows method := by
  obtain ⟨_, hu⟩ := unwrapped_of_unboundMethod? h
  exact sound.knows_lookup hu.found

end Runtime

end Callables
