import Callables.Dispatch
import Callables.Proofs.Knowledge
import Callables.Proofs.Naturality

namespace Callables

namespace ArgsView

variable {rt : Runtime} {view : ArgsView}

theorem knows_positional (h : rt.KnowsAll view.values) : rt.KnowsAll view.positional :=
  fun v hv => h v (List.mem_of_mem_take hv)

theorem knows_keywordValues (h : rt.KnowsAll view.values) : rt.KnowsAll view.keywordValues :=
  fun v hv => h v (List.mem_of_mem_drop hv)

theorem knows_keywords (h : rt.KnowsAll view.values) : rt.KnowsAll view.keywords.values := by
  intro v hv
  obtain ⟨⟨name, _⟩, hm, rfl⟩ := List.mem_map.mp hv
  exact knows_keywordValues h _ (List.of_mem_zip hm).2

end ArgsView

def Delivery.values {c : Convention} : Delivery c → List Value
  | .noArgs lead => [lead]
  | .single lead arg => [lead, arg]
  | .varArgs lead args => lead :: args
  | .varArgsKeywords lead args keywords => lead :: args ++ (keywords.map Dict.values).getD []
  | .fast lead args => lead :: args
  | .fastKeywords lead view => lead :: view.values

structure HostCall.Known (rt : Runtime) (host : HostCall) : Prop where
  function : rt.Knows host.function
  constants : rt.KnowsAll host.code.body.constants
  parameters : rt.KnowsAll host.bound.parameters
  positional : ∀ vs, host.bound.positional = some vs → rt.KnowsAll vs
  keywords : ∀ d, host.bound.keywords = some d → rt.KnowsAll d.values

namespace Runtime

variable {rt : Runtime}

theorem knows_byName {keywords : Keywords} (hk : rt.KnowsAll keywords.values) :
    ∀ v ∈ keywords.byName.map Prod.snd, rt.Knows v := by
  simpa [Keywords.byName, Keywords.values, KnowsAll] using hk

theorem knows_delivery {name : String} {lead : Value} {args : List Value} {keywords : Keywords}
    {c : Convention} {delivery : Delivery c} (hl : rt.Knows lead) (ha : rt.KnowsAll args)
    (hk : rt.KnowsAll keywords.values)
    (h : Delivery.make name lead args keywords c = .ok delivery) : rt.KnowsAll delivery.values := by
  unfold Delivery.make at h
  split at h
  · simp at h
  · cases c with
    | noArgs =>
      cases args with
      | nil => exact Except.ok.inj h ▸ by simp [Delivery.values, hl]
      | cons => simp at h
    | single =>
      match args, h with
      | [arg], h => exact Except.ok.inj h ▸ by simpa [Delivery.values, hl] using ha
    | varArgs | fast => exact Except.ok.inj h ▸ by simp [Delivery.values, hl, ha]
    | varArgsKeywords =>
      obtain rfl := Except.ok.inj h
      have entries : rt.KnowsAll (Dict.ofList keywords.byName).values :=
        fun v hv => knows_byName hk v (Dict.mem_values_ofList hv)
      simp only [Delivery.values]
      split <;> simp [hl, ha, entries]
    | fastKeywords =>
      exact Except.ok.inj h ▸ by simp [Delivery.values, ArgsView.ofCall, hl, ha, hk]

/-- The two checks between a call and what the entry accepts, in their order. -/
theorem deliver_eq (rt : Runtime) (callable : Value) (f : Function) (args : List Value)
    (keywords : Keywords) :
    rt.deliver callable f args keywords =
      match rt.checkReceiver f args with
      | .error e => .error e
      | .ok _ =>
        f.entry.accept (leadingArgument callable f args).1 (leadingArgument callable f args).2
          keywords := by
  unfold deliver
  cases rt.checkReceiver f args <;> rfl

theorem accept_eq (entry : Entry) (lead : Value) (args : List Value) (keywords : Keywords) :
    entry.accept lead args keywords =
      match entry.validate with
      | .error e => .error e
      | .ok _ => Delivery.make entry.name lead args keywords entry.convention := by
  unfold Entry.accept
  cases entry.validate <;> rfl

theorem deliver_ok {callable : Value} {f : Function} {args : List Value} {keywords : Keywords}
    {delivery : Delivery f.entry.convention}
    (h : rt.deliver callable f args keywords = .ok delivery) :
    rt.checkReceiver f args = .ok () ∧
      Delivery.make f.entry.name (leadingArgument callable f args).1
        (leadingArgument callable f args).2 keywords f.entry.convention = .ok delivery := by
  rw [deliver_eq, accept_eq] at h
  split at h
  · simp at h
  · rename_i h₁
    split at h
    · simp at h
    · exact ⟨h₁, h⟩

/-- What is handed to an entry point was there: the callable, its receiver or an argument. -/
theorem Sound.knows_deliver (sound : rt.Sound) {callable : Value} {f : Function}
    {args : List Value} {keywords : Keywords} {delivery : Delivery f.entry.convention}
    (hf : rt.heap.function? callable = some f) (hc : rt.Knows callable) (ha : rt.KnowsAll args)
    (hk : rt.KnowsAll keywords.values) (h : rt.deliver callable f args keywords = .ok delivery) :
    rt.KnowsAll delivery.values := by
  have lead : rt.Knows (leadingArgument callable f args).1 ∧
      rt.KnowsAll (leadingArgument callable f args).2 := by
    unfold leadingArgument
    split
    · exact ⟨hc, ha⟩
    · split
      · rename_i hr
        exact ⟨sound.knows_receiver hf hr, ha⟩
      · split
        · exact (knowsAll_cons ..).mp ha
        · exact ⟨trivial, ha⟩
      · exact ⟨trivial, by simp⟩
  obtain ⟨_, hd⟩ := deliver_ok h
  exact knows_delivery lead.1 lead.2 hk hd

theorem Sound.knows_hostCall (sound : rt.Sound) {lead : Value} {view : ArgsView} {host : HostCall}
    (hl : rt.Knows lead) (hv : rt.KnowsAll view.values)
    (h : rt.hostCall lead view = .ok host) : host.Known rt := by
  have wrapper {f : Function} (hf : (rt.heap.function? lead).filter Function.isMethod = some f) :
      rt.heap.function? lead = some f := (Option.filter_eq_some_iff.mp hf).1
  have function : rt.Knows ((((rt.heap.function? lead).filter Function.isMethod).bind
      Function.wrapped?).getD lead) := by
    cases hw : ((rt.heap.function? lead).filter Function.isMethod).bind Function.wrapped? with
    | none => exact hl
    | some wrapped =>
      obtain ⟨f, hf, hk⟩ := Option.bind_eq_some_iff.mp hw
      exact sound.knows_wrapped (wrapper hf) hk
  have receiver : rt.KnowsAll (((rt.heap.function? lead).filter Function.isMethod).bind
      Function.receiver).toList := by
    intro v hr
    obtain ⟨f, hf, hk⟩ := Option.bind_eq_some_iff.mp (Option.mem_toList.mp hr)
    exact sound.knows_receiver (wrapper hf) hk
  unfold hostCall at h
  simp only at h
  split at h
  · simp at h
  · rename_i metadata hm
    obtain ⟨f, hf, hfm⟩ := Option.bind_eq_some_iff.mp hm
    split at h
    · simp at h
    · rename_i code hcode
      split at h
      · simp at h
      · rename_i bound hb
        obtain rfl := Except.ok.inj h
        obtain ⟨place, _, hplace⟩ := Option.bind_eq_some_iff.mp hcode
        obtain ⟨hp, hpos, hkw⟩ := Parameters.bind_values (q := rt.Knows) hb
          (sound.knows_items _) (sound.knows_entries _)
          ((knowsAll_append ..).mpr ⟨receiver, ArgsView.knows_positional hv⟩)
          (knows_byName (ArgsView.knows_keywords hv))
        exact ⟨function, sound.knows_code hplace, hp, hpos, hkw⟩

end Runtime

end Callables
