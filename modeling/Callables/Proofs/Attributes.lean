import Callables.Proofs.Conduct
import Callables.Proofs.Knowledge

namespace Callables

namespace Function

theorem Fits.alike {rt : Runtime} {f g : Function} (h : f.Fits rt) (a : f.Alike g) :
    g.Fits rt := by
  constructor
  · intro owner receiver ho hr
    rw [a.entry]
    exact h.conforms (a.owner ▸ ho) (a.receiver ▸ hr)
  · intro hh
    obtain ⟨he, ho, hr⟩ := h.host (a.isHost ▸ hh)
    exact ⟨a.entry.trans he, a.owner.trans ho, a.receiver.trans hr⟩

end Function

theorem Object.Sound.alike {rt : Runtime} {f g : Function} (h : (Object.function f).Sound rt)
    (a : f.Alike g) (own : rt.KnowsAll g.ownReferences) : (Object.function g).Sound rt := by
  have hc : g.commonReferences = f.commonReferences := by
    simp [Function.commonReferences, a.receiver, a.module]
  refine ⟨?_, ?_, ?_⟩
  · have := (Runtime.knowsAll_append ..).mp h.references
    exact (Runtime.knowsAll_append ..).mpr ⟨hc ▸ this.1, own⟩
  · intro id hi
    exact h.classes id (by simpa [Object.classes, a.owner] using hi)
  · rintro _ ⟨⟩
    exact (h.fits f rfl).alike a

namespace Activity

variable {rt : Runtime}

theorem safe_setTypeAttribute (type : TypeId) (name : String) {value : Value}
    (hv : rt.Knows value) : Safe Any rt (setTypeAttribute type name value) := by
  refine Agree.get ((safe_modify ?_).bind fun rt₁ _ _ _ => ?_)
  · exact .setAttribute type name hv rfl rfl rfl
  · exact (safe_note _).bind fun rt₂ _ _ _ => safe_note _

theorem safe_eraseTypeAttribute (sound : rt.Sound) (type : TypeId) (name : String) :
    Safe (fun rt' old => rt'.KnowsAll old.toList) rt (eraseTypeAttribute type name) := by
  refine Agree.get ((safe_modify ?_).bind fun rt₁ _ changes _ => ?_)
  · exact .eraseAttribute type name rfl rfl rfl
  · apply (safe_note _).bind
    intro rt₂ _ changes' _
    apply safe_pure
    intro v hv
    have hg := Dict.mem_values_of_get? (Option.mem_toList.mp hv)
    exact changes'.grows.knows (changes.grows.knows (sound.knows_attributes type v hg))

theorem safe_setInDict (sound : rt.Sound) (dict : Ref) (name : String) {value : Value}
    (hv : rt.Knows value) : Safe Any rt (setInDict dict name value) := by
  apply Agree.get
  split
  · rename_i entries ho
    refine safe_store ho (.dict _ _) (.dict ?_)
    intro v hm
    rcases Dict.mem_values_set hm with rfl | hm
    · exact hv
    · exact (sound.live ho).references v hm
  · exact safe_pure trivial

theorem safe_eraseInDict (sound : rt.Sound) (dict : Ref) (name : String) :
    Safe (fun rt' old => rt'.KnowsAll old.toList) rt (eraseInDict dict name) := by
  apply Agree.get
  split
  · rename_i entries ho
    have known := (sound.live ho).references
    apply (safe_note _).bind
    intro rt₁ _ changes₁ _
    obtain ⟨o, ho₁, becomes⟩ := changes₁.grows.heap ho
    have hd : (Object.dict (entries.erase name)).Sound rt₁ :=
      .dict fun v hv => changes₁.grows.knows (known v (Dict.mem_values_erase hv))
    have stored : Safe Any rt₁ (store dict (.dict (entries.erase name))) := by
      cases becomes with
      | same => exact safe_store ho₁ (.dict _ _) hd
      | dict => exact safe_store ho₁ (.dict _ _) hd
    apply stored.bind
    intro rt₂ _ changes₂ _
    apply (safe_note _).bind
    intro rt₃ _ changes₃ _
    apply safe_pure
    intro v hv
    have := known v (Dict.mem_values_of_get? (Option.mem_toList.mp hv))
    exact changes₃.grows.knows (changes₂.grows.knows (changes₁.grows.knows this))
  · exact safe_pure (by simp)

/-- Metadata may change at will, as long as what it refers to is known. -/
theorem safe_modifyMetadata (sound : rt.Sound) (r : Ref) {change : Metadata → Metadata}
    (h : ∀ metadata, metadata.Known rt → (change metadata).Known rt) :
    Safe Any rt (modifyMetadata r change) := by
  apply Agree.get
  split
  · rename_i f ho
    split
    · rename_i metadata hm
      have alike := f.alike_withMetadata (change metadata)
      refine safe_store ho (.function alike) ((sound.live ho).alike alike ?_)
      rw [Function.ownReferences_withMetadata hm, Runtime.knowsAll_metadata]
      exact h metadata (sound.knows_metadata (Heap.function?_of_get? ho) hm)
    · exact safe_pure trivial
  · exact safe_pure trivial

end Activity

namespace Runtime

variable {rt : Runtime}

theorem conforms_of_checkSelf {entry : Entry} {owner : TypeId} {receiver : Value}
    (h : rt.checkSelf entry owner receiver = .ok ()) :
    rt.conforms entry owner receiver = true := by
  unfold checkSelf at h
  split at h
  · assumption
  · simp at h

/-- A wrapper calls what it wraps, or it stands for an unbound function that takes the receiver. -/
theorem wrapper_cases {callable receiver : Value} {w : Function}
    (h : rt.wrapper callable receiver = .ok w) :
    (∃ module, w = genericWrapper callable receiver module ∧
      (∀ m, module = some m → ∃ f, rt.baseFunction? callable = some f ∧ f.module = some m) ∧
      ∀ f, rt.baseFunction? callable = some f → f.receiver ≠ none) ∨
    (∃ f, rt.baseFunction? callable = some f ∧ f.receiver = none ∧
      (∀ owner, f.owner = some owner → rt.conforms f.entry owner receiver = true) ∧
      w = directWrapper callable f receiver) := by
  unfold wrapper at h
  cases hf : rt.baseFunction? callable with
  | none =>
    simp only [hf] at h
    exact .inl ⟨none, (Except.ok.inj h).symm, by simp, by simp⟩
  | some f =>
    simp only [hf] at h
    have checked : (∀ owner, f.owner = some owner → rt.conforms f.entry owner receiver = true) ∧
        (if f.isBound then (pure (genericWrapper callable receiver f.module) : Except CallError _)
          else pure (directWrapper callable f receiver)) = .ok w := by
      cases ho : f.owner with
      | none => exact ⟨by simp, by simpa [ho] using h⟩
      | some owner =>
        simp only [ho] at h
        cases hc : rt.checkSelf f.entry owner receiver with
        | error e => simp [hc, bind, Except.bind] at h
        | ok _ =>
          refine ⟨?_, by simpa [hc, bind, Except.bind] using h⟩
          rintro _ ⟨⟩
          exact conforms_of_checkSelf hc
    obtain ⟨hc, hw⟩ := checked
    cases hb : f.receiver with
    | some r =>
      rw [if_pos (by simp [Function.isBound, hb])] at hw
      refine .inl ⟨f.module, (Except.ok.inj hw).symm, fun m hm => ⟨f, rfl, hm⟩, ?_⟩
      rintro _ ⟨⟩
      simp [hb]
    | none =>
      rw [if_neg (by simp [Function.isBound, hb])] at hw
      exact .inr ⟨f, rfl, hb, hc, (Except.ok.inj hw).symm⟩

/-- A binding that succeeds leaves a new wrapper behind, and nothing else on the heap is new. -/
theorem exists_wrapper_of_bindMethod {rt' : Runtime} {callable receiver m : Value}
    (bound : (Activity.bindMethod callable receiver).run rt = (.ok m, rt')) :
    ∃ w, rt.wrapper callable receiver = .ok w ∧ rt'.heap.function? m = some w ∧
      rt'.heap = rt.heap.push (.function w) := by
  unfold Activity.bindMethod at bound
  rw [Activity.run_get] at bound
  cases hw : rt.wrapper callable receiver with
  | error e =>
    rw [hw] at bound
    cases bound
  | ok w =>
    rw [hw] at bound
    have made : (Activity.allocate (.function w)).run rt = (.ok m, rt') := bound
    cases made
    exact ⟨w, rfl, Heap.function?_of_get? ((Heap.get?_push ..).trans (if_pos rfl)), rfl⟩

theorem Sound.wrapper (sound : rt.Sound) {callable receiver : Value} {w : Function}
    (h : rt.wrapper callable receiver = .ok w) (hc : rt.Knows callable)
    (hr : rt.Knows receiver) : (Object.function w).Sound rt := by
  rcases wrapper_cases h with ⟨module, rfl, hm, _⟩ | ⟨f, hf, _, hconf, rfl⟩
  · have known : ∀ m, module = some m → rt.Knows m := by
      intro m hm'
      obtain ⟨f, hf, hmod⟩ := hm m hm'
      exact sound.knows_module (function?_of_baseFunction? hf) hmod
    refine ⟨?_, by simp [Object.classes, genericWrapper], ?_⟩
    · cases module with
      | none =>
        simp [Object.references, Function.commonReferences, Function.ownReferences,
          genericWrapper, hr, hc]
      | some m =>
        simp [Object.references, Function.commonReferences, Function.ownReferences,
          genericWrapper, hr, hc, known m rfl]
    · rintro _ ⟨⟩
      exact ⟨by simp [genericWrapper], by simp [genericWrapper, Function.isHost]⟩
  · have hh := function?_of_baseFunction? hf
    refine ⟨?_, ?_, ?_⟩
    · cases hm : f.module with
      | none =>
        simp [Object.references, Function.commonReferences, Function.ownReferences,
          directWrapper, hr, hc, hm]
      | some m =>
        simp [Object.references, Function.commonReferences, Function.ownReferences,
          directWrapper, hr, hc, hm, sound.knows_module hh hm]
    · intro id hi
      have ho : f.owner = some id := by simpa [Object.classes, directWrapper] using hi
      exact sound.knows_owner hh ho
    · rintro _ ⟨⟩
      refine ⟨?_, by simp [directWrapper, Function.isHost]⟩
      rintro owner _ ho ⟨⟩
      exact hconf owner ho

end Runtime

namespace Activity

variable {rt : Runtime}

theorem safe_bindMethod (sound : rt.Sound) {callable receiver : Value} (hc : rt.Knows callable)
    (hr : rt.Knows receiver) : Safe Runtime.Knows rt (bindMethod callable receiver) := by
  have made : Safe (fun rt' w => (Object.function w).Sound rt') rt
      (ofExcept (rt.wrapper callable receiver)) :=
    safe_ofExcept fun w hw => sound.wrapper hw hc hr
  refine Agree.get (made.bind ?_)
  intro rt' w _ hw
  exact (safe_allocate hw).weaken fun _ _ _ h => h.1

theorem safe_bindOnAccess (sound : rt.Sound) {callable : Value} {accessor : Option Value}
    {accessingClass : Option TypeId} (hc : rt.Knows callable)
    (ha : ∀ v, accessor = some v → rt.Knows v)
    (ht : ∀ id, accessingClass = some id → rt.types.contains id = true) :
    Safe Runtime.Knows rt (bindOnAccess callable accessor accessingClass) := by
  apply Agree.get
  cases hb : rt.bindingReceiver? callable accessor accessingClass with
  | none => exact safe_pure hc
  | some receiver => exact safe_bindMethod sound hc (sound.knows_bindingReceiver hb ha ht)

theorem safe_textValue (content : String) :
    Safe Runtime.Knows rt (do return .text (← text content)) :=
  (safe_text content).bind fun _ _ _ _ => safe_pure trivial

end Activity
end Callables
