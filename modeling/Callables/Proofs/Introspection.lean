import Callables.Proofs.Assignments
import Callables.Proofs.Chains
import Callables.Proofs.Elsewhere

namespace Callables

namespace Runtime

variable {rt : Runtime} {g : Value} {links rest : List Link} {link : Link} {f w : Function}

/-- The value that a chain of wrappers around a function is called through is a function. -/
theorem function?_top (chain : rt.heap.HasChain g links) (hf : rt.heap.function? g = some f) :
    ∃ top, rt.heap.function? (Link.top g links) = some top := by
  cases links with
  | nil => exact ⟨f, hf⟩
  | cons link rest =>
    obtain ⟨w, wraps⟩ := chain.1
    exact ⟨w, wraps.found⟩

/-- A wrapper leads to where the function leads that it wraps. -/
theorem innermost_of_wraps {callable : Value} {inner : Function}
    (wraps : rt.heap.Wraps callable link w) (layered : rt.heap.Layered)
    (hf : rt.heap.function? callable = some inner) :
    rt.heap.innermost link.wrapper = rt.heap.innermost callable := by
  obtain ⟨r, place, here⟩ := Heap.get?_of_function? wraps.found
  obtain ⟨s, rfl, -⟩ := Heap.get?_of_function? hf
  have older : s < r := layered r _ here s (by simp [Object.parts, wraps.wrapped])
  rw [place, Heap.innermost, Heap.innermostAt, Heap.function?_of_get? here]
  simp only [Option.bind_some, wraps.wrapped, if_pos older]
  rfl

/-- A chain of wrappers around a function that is none leads to that function. -/
theorem innermost_top (chain : rt.heap.HasChain g links) (layered : rt.heap.Layered)
    (hf : rt.heap.function? g = some f) (plain : f.wrapped? = none) :
    rt.heap.innermost (Link.top g links) = g := by
  induction links with
  | nil =>
    refine innermost_of_direct ?_
    rw [Link.top, hf]
    exact plain
  | cons link rest ih =>
    obtain ⟨⟨w, wraps⟩, inner⟩ := chain
    obtain ⟨top, found⟩ := function?_top inner hf
    exact (innermost_of_wraps wraps layered found).trans (ih inner)

theorem name_of_innermost {callable : Value} (wrapped : w.wrapped? = some callable)
    (leads : rt.heap.innermost callable = g) (hf : rt.heap.function? g = some f)
    (plain : f.wrapped? = none) :
    rt.name w = rt.name f ∧ rt.qualname w = rt.qualname f := by
  constructor
  · simp only [name, wrapped, leads, hf, plain]
  · simp only [qualname, wrapped, leads, hf, plain]

end Runtime

namespace Activity

variable {rt : Runtime} {r : Ref} {v : Value} {f w : Function} {name : String}

/-- A wrapper leaves all attributes but three to the value at the end of its chain. -/
theorem run_getAttribute_of_wrapper (hw : rt.baseFunction? v = some w)
    (wrapped : w.isMethod = true) (receiver : name ≠ "__self__") (inner : name ≠ "__func__")
    (owner : name ≠ "__objclass__") :
    (getAttribute v name).run rt = (getDirectAttribute (rt.heap.innermost v) name).run rt := by
  obtain ⟨callable, hc⟩ := Option.isSome_iff_exists.mp wrapped
  unfold getAttribute
  rw [run_get, hw]
  simp only [hc]
  have other {special : SpecialAttribute} {name' : String} (ne : name ≠ name')
      (named : SpecialAttribute.named? name' = some special) :
      SpecialAttribute.named? name ≠ some special :=
    fun same => ne (SpecialAttribute.named?_inj same named)
  split
  · exact absurd ‹_› (other receiver rfl)
  · exact absurd ‹_› (other inner rfl)
  · exact absurd ‹_› (other owner rfl)
  · rfl

theorem run_getAttribute_receiver {receiver : Value} (hw : rt.baseFunction? v = some w)
    (wrapped : w.isMethod = true) (bound : w.receiver = some receiver) :
    (getAttribute v "__self__").run rt = (.ok receiver, rt) := by
  obtain ⟨callable, hc⟩ := Option.isSome_iff_exists.mp wrapped
  have special : SpecialAttribute.named? "__self__" = some .receiver := rfl
  unfold getAttribute
  rw [run_get, hw]
  simp only [hc, special, bound]
  rfl

theorem run_getAttribute_wrapped {callable : Value} (hw : rt.baseFunction? v = some w)
    (wrapped : w.wrapped? = some callable) :
    (getAttribute v "__func__").run rt = (.ok callable, rt) := by
  have special : SpecialAttribute.named? "__func__" = some .wrapped := rfl
  unfold getAttribute
  rw [run_get, hw]
  simp only [wrapped, special]
  rfl

/-- A function that is no wrapper answers for itself. -/
theorem run_getAttribute_of_plain (hf : rt.baseFunction? v = some f) (plain : f.wrapped? = none) :
    (getAttribute v name).run rt = (getDirectAttribute v name).run rt := by
  unfold getAttribute
  rw [run_get, hf]
  simp only [plain]

theorem run_getDirectAttribute_of_function (hf : rt.baseFunction? (.object r) = some f) :
    (getDirectAttribute (.object r) name).run rt = (getFunctionAttribute r f name).run rt := by
  unfold getDirectAttribute
  rw [run_get, hf]

/-- What is read as the names of a function are its names. -/
theorem run_getAttribute_names (hf : rt.baseFunction? v = some f) (plain : f.wrapped? = none) :
    (∃ t rt', (getAttribute v "__name__").run rt = (.ok (.text t), rt') ∧
      t.content = rt.name f) ∧
    ∃ t rt', (getAttribute v "__qualname__").run rt = (.ok (.text t), rt') ∧
      t.content = rt.qualname f := by
  obtain ⟨r, rfl, -⟩ := Heap.get?_of_function? (Runtime.function?_of_baseFunction? hf)
  have name : SpecialAttribute.named? "__name__" = some .name := rfl
  have qualname : SpecialAttribute.named? "__qualname__" = some .qualname := rfl
  rw [run_getAttribute_of_plain hf plain, run_getAttribute_of_plain hf plain,
    run_getDirectAttribute_of_function hf, run_getDirectAttribute_of_function hf]
  unfold getFunctionAttribute Runtime.name Runtime.qualname
  rw [run_get, run_get, name, qualname, plain]
  dsimp only
  cases hm : f.metadata? with
  | none =>
    exact ⟨⟨⟨rt.nextText, f.entry.name⟩, _, rfl, by simp [Runtime.ownName, hm]⟩,
      ⟨rt.nextText, rt.ownQualname f⟩, _, rfl, rfl⟩
  | some metadata =>
    exact ⟨⟨metadata.name, rt, rfl, by simp [Runtime.ownName, hm]⟩,
      metadata.qualname, rt, rfl, by simp [Runtime.ownQualname, hm]⟩

/-- Nothing is assigned to a wrapper, and trying it changes nothing. -/
theorem run_setAttribute_of_wrapper (hw : rt.baseFunction? v = some w)
    (wrapped : w.isMethod = true) (name : String) (value : Value) :
    ∃ e, (setAttribute v name value).run rt = (.error e, rt) := by
  obtain ⟨r, rfl, -⟩ := Heap.get?_of_function? (Runtime.function?_of_baseFunction? hw)
  have bare : w.metadata? = none := by
    obtain ⟨_, _, _, _, _, kind⟩ := w
    cases kind with
    | method => rfl
    | builtin | defined | native => cases wrapped
  unfold setAttribute
  rw [run_get, hw]
  dsimp only
  unfold setFunctionAttribute
  rw [run_get, bare]
  cases SpecialAttribute.named? name with
  | none => exact ⟨_, rfl⟩
  | some special => cases special <;> exact ⟨_, rfl⟩

end Activity

namespace Runtime

variable {rt : Runtime} {g : Value} {links rest : List Link} {link : Link}

/-- What is seen of a chain of wrappers around a function that is none: the newest wrapper answers
for its own receiver and what it wraps, and for everything else `g` does. -/
structure SeesThrough (rt : Runtime) (g : Value) (link : Link) (rest : List Link) : Prop where
  read : ∀ name, name ≠ "__self__" → name ≠ "__func__" → name ≠ "__objclass__" →
    (Activity.getAttribute link.wrapper name).run rt = (Activity.getAttribute g name).run rt
  receiver : (Activity.getAttribute link.wrapper "__self__").run rt = (.ok link.receiver, rt)
  wrapped : (Activity.getAttribute link.wrapper "__func__").run rt = (.ok (Link.top g rest), rt)
  /-- Names by way of the wrapper, of the function and of reading them are the same. -/
  names : ∃ w f, rt.baseFunction? link.wrapper = some w ∧ rt.baseFunction? g = some f ∧
    rt.name w = rt.name f ∧ rt.qualname w = rt.qualname f ∧
    (∃ t rt', (Activity.getAttribute link.wrapper "__name__").run rt = (.ok (.text t), rt') ∧
      t.content = rt.name w) ∧
    ∃ t rt', (Activity.getAttribute link.wrapper "__qualname__").run rt = (.ok (.text t), rt') ∧
      t.content = rt.qualname w
  assigned : ∀ name value, ∃ e,
    (Activity.setAttribute link.wrapper name value).run rt = (.error e, rt)

/-- A chain stays when something is assigned to an attribute, whatever it is. -/
theorem Chain.setAttribute (h : Chain g rt links) {value : Value} (known : rt.Knows value)
    (v : Value) (name : String) :
    Chain g ((Activity.setAttribute v name value).run rt).2 links := by
  obtain ⟨reachable, live, -⟩ := h.present
  have changes := (Activity.safe_setAttribute reachable.sound v name known).changes
  exact h.later changes.reaches (changes.grows.knows live)

theorem Chain.seesThrough (h : Chain g rt (link :: rest)) {f : Function}
    (hf : rt.baseFunction? g = some f) (plain : f.wrapped? = none) :
    rt.SeesThrough g link rest := by
  obtain ⟨reachable, -, chain⟩ := h.present
  have sound := reachable.sound
  have base := function?_of_baseFunction? hf
  obtain ⟨⟨w, wraps⟩, inner⟩ := chain
  have outer := sound.baseFunction?_eq wraps.found
  have isMethod : w.isMethod = true := by simp [Function.isMethod, wraps.wrapped]
  have leads := innermost_top inner reachable.layered base plain
  have read (name : String) (h₁ : name ≠ "__self__") (h₂ : name ≠ "__func__")
      (h₃ : name ≠ "__objclass__") :
      (Activity.getAttribute link.wrapper name).run rt =
        (Activity.getAttribute g name).run rt := by
    obtain ⟨top, found⟩ := function?_top inner base
    rw [Activity.run_getAttribute_of_wrapper outer isMethod h₁ h₂ h₃,
      innermost_of_wraps wraps reachable.layered found, leads,
      Activity.run_getAttribute_of_plain hf plain]
  obtain ⟨name, qualname⟩ := name_of_innermost wraps.wrapped leads base plain
  obtain ⟨readName, readQualname⟩ := Activity.run_getAttribute_names hf plain
  refine ⟨read, Activity.run_getAttribute_receiver outer isMethod wraps.receiver,
    Activity.run_getAttribute_wrapped outer wraps.wrapped,
    ⟨w, f, outer, hf, name, qualname, ?_, ?_⟩,
    Activity.run_setAttribute_of_wrapper outer isMethod⟩
  · rw [read _ (by decide) (by decide) (by decide), name]
    exact readName
  · rw [read _ (by decide) (by decide) (by decide), qualname]
    exact readQualname

/-- Bound wrappers are transparent. A chain of wrappers around a function that is none shows
that function, apart from the receiver and what is wrapped, and nothing can be assigned to it. It
still does so when something has been assigned to the function, or to anything else. -/
theorem Chain.wrappers_transparent (h : Chain g rt (link :: rest)) {f : Function}
    (hf : rt.baseFunction? g = some f) (plain : f.wrapped? = none) :
    rt.SeesThrough g link rest ∧ ∀ v name value, rt.Knows value →
      ((Activity.setAttribute v name value).run rt).2.SeesThrough g link rest := by
  refine ⟨h.seesThrough hf plain, fun v name value known => ?_⟩
  have changes := (Activity.safe_setAttribute h.present.1.sound v name known).changes
  have later := h.setAttribute known v name
  have sound := later.present.1.sound
  have base := function?_of_baseFunction? hf
  obtain ⟨f', hf', alike⟩ := (h.present.1.sound.persists changes.reaches).function base
    (changes.grows.knows (knows_of_function? base))
  exact later.seesThrough (sound.baseFunction?_eq hf') (alike.wrapped.trans plain)

def rewrapped : Runtime :=
  ((Activity.bindMethod (.object 3) (.object 1)).run
    ((Activity.bindMethod (.object 0) (.object 1)).run Session.enlisted.runtime).2).2

theorem rewrapped_chain :
    Chain (.object 0) rewrapped [⟨.object 1, .object 4⟩, ⟨.object 1, .object 3⟩] := by
  have base : Chain (.object 0) Session.enlisted.runtime [] :=
    .start (.of_session Session.enlisted_reachable) ((knows_object_iff _).mpr (by decide +kernel))
  have first := base.bind_ok (.object 1) (.object 3)
    ((knows_object_iff _).mpr (by decide +kernel)) (by decide +kernel)
  exact first.bind_ok (.object 1) (.object 4)
    ((knows_object_iff _).mpr (by decide +kernel)) (by decide +kernel)

theorem rewrapped_transparent :
    rewrapped.SeesThrough (.object 0) ⟨.object 1, .object 4⟩ [⟨.object 1, .object 3⟩] ∧
      ((Activity.getAttribute (.object 4) "__name__").run
        ((Activity.setAttribute (.object 0) "__name__" (.text ⟨100, "n"⟩)).run rewrapped).2).1 =
          .ok (.text ⟨100, "n"⟩) := by
  have plain : (rewrapped.baseFunction? (.object 0)).any (!·.isMethod) = true := by
    decide +kernel
  obtain ⟨f, hf, unwrapped⟩ := (Option.any_eq_true ..).mp plain
  have none : f.wrapped? = none := by simpa [Function.isMethod] using unwrapped
  exact ⟨(rewrapped_chain.wrappers_transparent hf none).1, by decide +kernel⟩

end Runtime
end Callables
