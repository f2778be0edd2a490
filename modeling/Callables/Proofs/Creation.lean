import Callables.Proofs.Attributes
import Callables.Table

namespace Callables.Activity

variable {rt : Runtime}

theorem safe_newModule (name : String) : Safe Runtime.Knows rt (newModule name) := by
  apply (safe_text name).bind
  intro rt₁ t _ _
  apply Agree.get
  have hd : (Object.dict (Dict.empty.set "__name__" (.text t))).Sound rt₁ := by
    refine .dict fun v hv => ?_
    rcases Dict.mem_values_set hv with rfl | hv
    · trivial
    · simp [Dict.values, Dict.empty] at hv
  apply (safe_allocate hd).discard.bind
  rintro rt₂ _ _ ⟨_, hk, rfl⟩
  have hm : (Object.module t rt₁.heap.nextRef).Sound rt₂ :=
    .of_references (by simpa [Object.references] using hk) rfl rfl
  exact (safe_allocate hm).weaken fun _ _ _ h => h.1

theorem safe_newInstance {type : TypeId} (ht : rt.types.contains type = true) :
    Safe Runtime.Knows rt (newInstance type) := by
  have ho : (Object.ofClass type .empty).Sound rt :=
    ⟨by simp [Object.references, Dict.values, Dict.empty], by simpa [Object.classes] using ht,
      by simp⟩
  exact (safe_allocate ho).weaken fun _ _ _ h => h.1

theorem safe_newClosure (name : String) (body : ClosureBody) :
    Safe Runtime.Knows rt (newClosure name body) := by
  have ho : (Object.closure ⟨name, body⟩).Sound rt :=
    .of_references (by simp [Object.references]) rfl rfl
  exact (safe_allocate ho).weaken fun _ _ _ h => h.1

theorem safe_newBuiltinFunction (entry : Entry) {receiver module : Option Value}
    (hr : rt.KnowsAll receiver.toList) (hm : rt.KnowsAll module.toList) :
    Safe Runtime.Knows rt (newBuiltinFunction entry receiver module) := by
  refine (safe_allocate ⟨?_, by simp [Object.classes], ?_⟩).weaken fun _ _ _ h => h.1
  · simp [Object.references, Function.commonReferences, Function.ownReferences, hr, hm]
  · rintro _ ⟨⟩
    exact ⟨by simp, by simp [Function.isHost]⟩

theorem safe_textOr (content : Option String) (other : Text) :
    Safe Any rt (textOr content other) := by
  cases content with
  | none => exact safe_pure trivial
  | some content => exact safe_text content

theorem safe_optionalText (content : Option String) :
    Safe Runtime.Knows rt (optionalText content) := by
  cases content with
  | none => exact safe_pure trivial
  | some content => exact safe_textValue content

theorem safe_newNativeFunction (sound : rt.Sound) {entry : Entry} {receiver module : Option Value}
    {owner : Option TypeId} (hr : rt.KnowsAll receiver.toList) (hm : rt.KnowsAll module.toList)
    (ho : ∀ id, owner = some id → rt.types.contains id = true)
    (conforms : ∀ id v, owner = some id → receiver = some v → rt.conforms entry id v = true) :
    Safe Runtime.Knows rt (newNativeFunction entry receiver module owner) := by
  apply (safe_text _).bind
  intro rt₁ name changes₁ _
  apply Agree.get
  apply (safe_textOr _ _).bind
  intro rt₂ qualname changes₂ _
  apply (safe_optionalText _).bind
  intro rt₃ doc changes₃ hdoc
  have grows := changes₁.grows.trans (changes₂.grows.trans changes₃.grows)
  refine (safe_allocate ⟨?_, ?_, ?_⟩).weaken fun _ _ _ h => h.1
  · simp [Object.references, Function.commonReferences, Function.ownReferences,
      Metadata.references, grows.knowsAll hr, grows.knowsAll hm, hdoc]
  · intro id hi
    exact grows.types.contains (ho id (by simpa [Object.classes] using hi))
  · rintro _ ⟨⟩
    refine ⟨?_, by simp [Function.isHost]⟩
    rintro id v rfl rfl
    rw [grows.conforms sound entry id (hr v (by simp))]
    exact conforms id v rfl rfl

theorem safe_newNativeMethod (sound : rt.Sound) {entry : Entry} {receiver module : Option Value}
    {owner : Option TypeId} (hr : rt.KnowsAll receiver.toList) (hm : rt.KnowsAll module.toList)
    (ho : ∀ id, owner = some id → rt.types.contains id = true) :
    Safe Runtime.Knows rt (newNativeMethod entry receiver module owner) := by
  cases owner with
  | none => exact safe_newNativeFunction sound hr hm (by simp) (by simp)
  | some owner =>
    cases receiver with
    | none => exact safe_newNativeFunction sound hr hm ho (by simp)
    | some v =>
      have checked : Safe (fun rt' _ => rt'.conforms entry owner v = true) rt
          (ofExcept (rt.checkSelf entry owner v)) :=
        safe_ofExcept fun _ h => Runtime.conforms_of_checkSelf h
      refine Agree.get (checked.bind fun rt₁ _ changes₁ hconf => ?_)
      have grows := changes₁.grows
      refine safe_newNativeFunction (sound.changes changes₁) (grows.knowsAll hr)
        (grows.knowsAll hm) (fun id hi => grows.types.contains (ho id hi)) ?_
      rintro _ _ ⟨⟩ ⟨⟩
      exact hconf

theorem safe_newHostFunction (sound : rt.Sound) {code : Ref} {c : Code} {globals : Value}
    {qualname : Option String} {closure : Option Ref} (hcode : rt.Knows (.object code))
    (hg : rt.Knows globals) (hc : ∀ r, closure = some r → rt.Knows (.object r)) :
    Safe Runtime.Knows rt (newHostFunction code c globals qualname closure) := by
  apply Agree.get
  split
  · exact safe_throw _
  · rename_i names hn
    dsimp only
    split
    · exact safe_throw_bind _ _
    · apply (safe_textOr _ _).bind
      intro rt₁ qualname changes₁ _
      have grows := changes₁.grows
      have module : rt₁.KnowsAll (names.get? "__name__").toList := by
        intro v hv
        obtain ⟨o, ho, hod⟩ := Option.bind_eq_some_iff.mp hn
        cases o with
        | dict names' =>
          obtain rfl : names' = names := by simpa [Object.dict?] using hod
          have := Dict.mem_values_of_get? (Option.mem_toList.mp hv)
          exact grows.knows (sound.knows_references ho v this)
        | _ => simp [Object.dict?] at hod
      have known : Metadata.Known rt₁ {
          name := c.name
          qualname
          doc := (c.doc.map Value.text).getD .none
          module := none
          code := some code
          defaults := none, keywordDefaults := none, annotations := none, attributes := none
          globals, closure } := by
        refine ⟨?_, by simp, ?_, by simp, by simp, by simp, by simp, grows.knows hg, ?_⟩
        · cases c.doc <;> trivial
        · rintro r ⟨⟩
          exact grows.knows hcode
        · exact fun r hr => grows.knows (hc r hr)
      refine (safe_allocate ⟨?_, by simp [Object.classes], ?_⟩).weaken fun _ _ _ h => h.1
      · simp [Object.references, Function.commonReferences, Function.ownReferences, module,
          Runtime.knowsAll_metadata.mpr known]
      · rintro _ ⟨⟩
        exact ⟨by simp, fun _ => ⟨rfl, rfl, rfl⟩⟩

theorem safe_newTable (entries : List Entry) : Safe Any rt (newTable entries) := by
  unfold newTable
  induction entries generalizing rt with
  | nil => exact safe_pure trivial
  | cons entry rest ih =>
    rw [List.mapM_cons]
    refine (safe_entryIdent.bind fun _ _ _ _ => safe_pure (P := Any) trivial).bind ?_
    intro rt₁ _ _ _
    exact ih.bind fun _ _ _ _ => safe_pure trivial

/-- A fold whose every step is of good conduct, with a demand on the runtime that lasts. -/
theorem safe_foldlM {β γ : Type} {step : β → γ → Activity β} {l : List γ} {start : β}
    (h : ∀ rt', rt.Changes rt' → ∀ b x, Safe Any rt' (step b x)) :
    Safe Any rt (l.foldlM step start) := by
  induction l generalizing rt start with
  | nil => exact safe_pure trivial
  | cons x rest ih =>
    rw [List.foldlM_cons]
    apply (h rt .refl start x).bind
    intro rt₁ b changes₁ _
    exact ih fun rt' changes b x => h rt' (changes₁.trans changes) b x

theorem safe_addToType (sound : rt.Sound) {type : TypeId} (ht : rt.types.contains type = true)
    (added : Nat) (entry : Entry) : Safe Any rt (addToType type added entry) := by
  unfold addToType
  split
  · exact safe_pure trivial
  · apply Agree.get
    dsimp only
    split
    · exact safe_pure trivial
    · have owner : ∀ id, (if entry.flags.has .static then none else some type) = some id →
          rt.types.contains id = true := by
        intro id hi
        split at hi
        · simp at hi
        · exact Option.some.inj hi ▸ ht
      apply (safe_newNativeMethod sound (by simp) (by simp) owner).bind
      intro rt₁ callable changes₁ hc
      exact (safe_setTypeAttribute type entry.name hc).bind fun _ _ _ _ => safe_pure trivial

theorem safe_addTableToType (sound : rt.Sound) {type : TypeId}
    (ht : rt.types.contains type = true) (table : List Entry) :
    Safe Any rt (addTableToType type table) := by
  refine Agree.get ((safe_ofExcept (P := Any) fun _ _ => trivial).bind ?_)
  intro rt₁ _ changes₁ _
  apply safe_foldlM
  intro rt₂ changes₂ added entry
  have changes := changes₁.trans changes₂
  exact safe_addToType (sound.changes changes)
    ((Runtime.Changes.grows changes).types.contains ht) added entry

theorem safe_addToModule (sound : rt.Sound) {module : Value} (hm : rt.Knows module) (name : Text)
    (names : Ref) (added : Nat) (entry : Entry) :
    Safe Any rt (addToModule module name names added entry) := by
  unfold addToModule
  split
  · exact safe_pure trivial
  · apply Agree.get
    dsimp only
    split
    · exact safe_pure trivial
    · have receiver :
          rt.KnowsAll (if entry.flags.has .static then none else some module).toList := by
        split <;> simp [hm]
      apply (safe_newNativeFunction sound receiver (by simp) (by simp) (by simp)).bind
      intro rt₁ callable changes₁ hc
      exact (safe_setInDict (sound.changes changes₁) names entry.name hc).bind
        fun _ _ _ _ => safe_pure trivial

theorem safe_addTableToModule (sound : rt.Sound) {module : Value} (hm : rt.Knows module)
    (table : List Entry) : Safe Any rt (addTableToModule module table) := by
  apply Agree.get
  split
  · refine (safe_ofExcept (P := Any) fun _ _ => trivial).bind ?_
    intro rt₁ _ changes₁ _
    apply safe_foldlM
    intro rt₂ changes₂ added entry
    have changes := changes₁.trans changes₂
    exact safe_addToModule (sound.changes changes) ((Runtime.Changes.grows changes).knows hm) _ _
      added entry
  · exact safe_throw _

end Callables.Activity
