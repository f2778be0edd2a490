import Callables.Operation
import Callables.Proofs.Fairness
import Callables.Proofs.Programs

namespace Callables

namespace Operation

open Program

variable {s : Session}

def Known (s : Session) (outcome : Outcome) : Prop :=
  s.runtime.KnowsAll outcome.value?.toList

theorem safe_value (hs : s.Sound) {activity : Activity Value}
    (h : Activity.Safe Runtime.Knows s.runtime activity) : Safe Known s (value activity) := by
  apply (safe_act hs h).bind
  intro s₁ v hs₁ _ hv
  apply safe_pure hs₁
  simpa [Known, Outcome.value?] using hv

theorem safe_done (hs : s.Sound) {activity : Activity Unit}
    (h : Activity.Safe Activity.Any s.runtime activity) : Safe Known s (done activity) :=
  (safe_act hs h).bind fun s₁ _ hs₁ _ _ => safe_pure hs₁ (by simp [Known, Outcome.value?])

theorem safe_ofTypes {α : Type} (hs : s.Sound) (result : Except TypeFault α) :
    Safe (fun s' a => s' = s ∧ result = .ok a) s (ofTypes result) := by
  cases result with
  | error e => exact safe_throw hs _
  | ok a => exact safe_pure hs ⟨rfl, rfl⟩

theorem safe_setTypes (hs : s.Sound) {types : Types}
    (change : s.runtime.Change { s.runtime with types }) :
    Safe (fun s' _ => s'.runtime.types = types) s (setTypes types) := by
  refine (safe_modify ?_ (.single change)).weaken ?_
  · exact hs.with_runtime (hs.runtime.change change) (.single change)
  · rintro s' _ _ rfl
    rfl

abbrev KnownBody (s : Session) (e : Expr Text Value) : Prop := s.runtime.KnowsAll e.constants

def textName (name : String) : Program Text := act (Activity.text name)

mutual

theorem safe_body {s : Session} (hs : s.Sound) :
    (e : Expr String Operand) → Safe KnownBody s (e.mapM textName read)
  | .constant value => by
    simp only [Expr.mapM]
    apply (safe_read hs value).bind
    intro s₁ v hs₁ _ hv
    apply safe_pure hs₁
    simpa [KnownBody, Expr.constants] using hv
  | .parameter _ | .argument _ | .cell _ | .global _ | .parameters | .collectedPositional
  | .collectedKeywords | .globals | .function | .codeName | .depth | .raise _ _ => by
    simp only [Expr.mapM]
    exact safe_pure hs (by simp [KnownBody, Expr.constants])
  | .tuple items => by
    simp only [Expr.mapM]
    exact (safe_bodies hs items).bind fun s₁ es hs₁ _ he => safe_pure hs₁ he
  | .sequence steps => by
    simp only [Expr.mapM]
    exact (safe_bodies hs steps).bind fun s₁ es hs₁ _ he => safe_pure hs₁ he
  | .call callee args keywords => by
    simp only [Expr.mapM]
    apply (safe_body hs callee).bind
    intro s₁ c hs₁ _ hc
    apply (safe_bodies hs₁ args).bind
    intro s₂ as hs₂ changes₂ ha
    apply (safe_namedBodies hs₂ keywords).bind
    intro s₃ ks hs₃ changes₃ hk
    apply safe_pure hs₃
    simp [KnownBody, Expr.constants, changes₃.grows.knowsAll (changes₂.grows.knowsAll hc),
      changes₃.grows.knowsAll ha, hk]
  | .callMethod receiver name args keywords => by
    simp only [Expr.mapM]
    apply (safe_body hs receiver).bind
    intro s₁ c hs₁ _ hc
    apply (safe_bodies hs₁ args).bind
    intro s₂ as hs₂ changes₂ ha
    apply (safe_namedBodies hs₂ keywords).bind
    intro s₃ ks hs₃ changes₃ hk
    apply safe_pure hs₃
    simp [KnownBody, Expr.constants, changes₃.grows.knowsAll (changes₂.grows.knowsAll hc),
      changes₃.grows.knowsAll ha, hk]
  | .getAttribute target name => by
    simp only [Expr.mapM]
    exact (safe_body hs target).bind fun s₁ t hs₁ _ ht => safe_pure hs₁ ht
  | .setAttribute target name value => by
    simp only [Expr.mapM]
    apply (safe_body hs target).bind
    intro s₁ t hs₁ _ ht
    apply (safe_body hs₁ value).bind
    intro s₂ v hs₂ changes₂ hv
    exact safe_pure hs₂ (by simp [KnownBody, Expr.constants, changes₂.grows.knowsAll ht, hv])
  | .attempt body => by
    simp only [Expr.mapM]
    exact (safe_body hs body).bind fun s₁ b hs₁ _ hb => safe_pure hs₁ hb
  | .add left right => by
    simp only [Expr.mapM]
    apply (safe_body hs left).bind
    intro s₁ l hs₁ _ hl
    apply (safe_body hs₁ right).bind
    intro s₂ r hs₂ changes₂ hr
    exact safe_pure hs₂ (by simp [KnownBody, Expr.constants, changes₂.grows.knowsAll hl, hr])
  | .ifPositive condition yes no => by
    simp only [Expr.mapM]
    apply (safe_body hs condition).bind
    intro s₁ c hs₁ _ hc
    apply (safe_body hs₁ yes).bind
    intro s₂ y hs₂ changes₂ hy
    apply (safe_body hs₂ no).bind
    intro s₃ n hs₃ changes₃ hn
    apply safe_pure hs₃
    simp [KnownBody, Expr.constants, changes₃.grows.knowsAll (changes₂.grows.knowsAll hc),
      changes₃.grows.knowsAll hy, hn]

theorem safe_bodies {s : Session} (hs : s.Sound) :
    (es : List (Expr String Operand)) →
      Safe (fun s es => s.runtime.KnowsAll (Expr.constantsAll es)) s
        (Expr.mapAllM textName read es)
  | [] => by
    simp only [Expr.mapAllM]
    exact safe_pure hs (by simp [Expr.constantsAll])
  | e :: rest => by
    simp only [Expr.mapAllM]
    apply (safe_body hs e).bind
    intro s₁ e hs₁ _ he
    apply (safe_bodies hs₁ rest).bind
    intro s₂ es hs₂ changes₂ hes
    exact safe_pure hs₂ (by simp [Expr.constantsAll, changes₂.grows.knowsAll he, hes])

theorem safe_namedBodies {s : Session} (hs : s.Sound) :
    (es : List (String × Expr String Operand)) →
      Safe (fun s es => s.runtime.KnowsAll (Expr.constantsNamed es)) s
        (Expr.mapNamedM textName read es)
  | [] => by
    simp only [Expr.mapNamedM]
    exact safe_pure hs (by simp [Expr.constantsNamed])
  | (name, e) :: rest => by
    simp only [Expr.mapNamedM]
    apply (safe_text hs name).bind
    intro s₁ _ hs₁ _ _
    apply (safe_body hs₁ e).bind
    intro s₂ e hs₂ _ he
    apply (safe_namedBodies hs₂ rest).bind
    intro s₃ es hs₃ changes₃ hes
    apply safe_pure hs₃
    simp [Expr.constantsNamed, changes₃.grows.knowsAll he, hes]

end

theorem safe_makeCode (hs : s.Sound) (plan : CodePlan) :
    Safe Program.Known s (makeCode plan) := by
  apply (safe_body hs plan.body).bind
  intro s₁ body hs₁ _ hb
  apply (safe_text hs₁ _).bind
  intro s₂ name hs₂ changes₂ _
  apply (safe_text hs₂ _).bind
  intro s₃ qualname hs₃ changes₃ _
  have doc : Safe (fun _ _ => True) s₃ (plan.doc.mapM fun doc => act (Activity.text doc)) := by
    cases plan.doc with
    | none => exact safe_pure hs₃ trivial
    | some doc => exact (safe_text hs₃ doc).bind fun _ _ hs' _ _ => safe_pure hs' trivial
  apply doc.bind
  intro s₄ doc hs₄ changes₄ _
  have grows := changes₂.grows.trans (changes₃.grows.trans changes₄.grows)
  have ho : (Object.code {
      name, qualname, doc, body
      parameters := plan.parameters
      freeVariables := plan.freeVariables }).Sound s₄.runtime :=
    .of_references (grows.knowsAll hb) rfl rfl
  exact (safe_act hs₄ (Activity.safe_allocate ho)).weaken fun _ _ _ h => h.1

def keepsTypes : Operation → Bool
  | .newType .. => false
  | _ => true

theorem known_plain {outcome : Outcome} (h : outcome.value? = none) : Known s outcome := by
  simp [Known, h]

theorem known_optional {v : Option Value} (h : ∀ u, v = some u → s.runtime.Knows u) :
    Known s (.optional v) :=
  fun u hu => h u (Option.mem_toList.mp hu)

theorem safe_answer {program : Program Value} (h : Safe Program.Known s program) :
    Safe Known s (return .value (← program)) := by
  apply h.bind
  intro s₁ v hs₁ _ hv
  apply safe_pure hs₁
  simpa [Known, Outcome.value?] using hv

theorem safe_registry (hs : s.Sound) (label : String) :
    Safe (fun _ _ => True) s (registry label) :=
  safe_get ((safe_need hs _).weaken fun _ _ _ _ => trivial)

theorem safe_setRegistry (hs : s.Sound) (label : String) (r : Registry TypeId) :
    Safe (fun _ _ => True) s (setRegistry label r) :=
  (safe_modify ⟨hs.runtime, hs.kept⟩ .refl).weaken fun _ _ _ _ => trivial

/-- The operations that call something read all there is to read first. -/
theorem safe_called (hs : s.Sound) (target : Operand) (args : List Operand)
    (keywords : List (String × Operand))
    {activity : Value → List Value → Keywords → Activity Value}
    (h : ∀ (s : Session) target args keywords, s.Sound → s.runtime.Knows target →
      s.runtime.KnowsAll args → s.runtime.KnowsAll (Keywords.values keywords) →
      Activity.Safe Runtime.Knows s.runtime (activity target args keywords)) :
    Safe Known s (do
      let target ← read target
      let args ← readAll args
      let keywords ← readKeywords keywords
      value (activity target args keywords)) := by
  apply (safe_read hs target).bind
  intro s₁ t hs₁ _ ht
  apply (safe_readAll hs₁ args).bind
  intro s₂ as hs₂ changes₂ ha
  apply (safe_readKeywords hs₂ keywords).bind
  intro s₃ ks hs₃ changes₃ hk
  exact safe_value hs₃ (h s₃ t as ks hs₃ (changes₃.grows.knows (changes₂.grows.knows ht))
    (changes₃.grows.knowsAll ha) hk)

theorem safe_drop (hs : s.Sound) (name : String) : Safe Known s (run (.drop name)) := by
  refine safe_get ((safe_need hs _).discard.bind ?_)
  rintro _ _ _ _ ⟨_, rfl, _⟩
  apply (safe_modify (hs.forget name) (.single (.quiet rfl rfl rfl))).bind
  intro s₁ _ hs₁ _ _
  exact safe_pure hs₁ (known_plain rfl)

theorem safe_addTypeFlags (hs : s.Sound) (type : Operand) (flags : TypeFlags) :
    Safe Known s (run (.addTypeFlags type flags)) := by
  apply (safe_readType hs type).bind
  intro s₁ id hs₁ _ _
  apply safe_runtime
  apply (safe_ofTypes hs₁ _).bind
  rintro s₂ types hs₂ _ ⟨rfl, hf⟩
  have change : s₂.runtime.Change { s₂.runtime with types } := .addFlags id flags rfl hf rfl
  apply (safe_setTypes hs₂ change).bind
  intro s₃ _ hs₃ _ _
  exact safe_pure hs₃ (known_plain rfl)

theorem safe_setTypeAttribute (hs : s.Sound) (type : Operand) (name : String) (value : Operand) :
    Safe Known s (run (.setTypeAttribute type name value)) := by
  apply (safe_readType hs type).bind
  intro s₁ id hs₁ _ _
  apply (safe_read hs₁ value).bind
  intro s₂ v hs₂ _ hv
  exact safe_done hs₂ (Activity.safe_setTypeAttribute id name hv)

theorem safe_eraseTypeAttribute (hs : s.Sound) (type : Operand) (name : String) :
    Safe Known s (run (.eraseTypeAttribute type name)) := by
  apply (safe_readType hs type).bind
  intro s₁ id hs₁ _ _
  apply (safe_act hs₁ (Activity.safe_eraseTypeAttribute hs₁.runtime id name)).bind
  intro s₂ old hs₂ _ ho
  exact safe_pure hs₂ ho

theorem safe_moduleNames (hs : s.Sound) (module : Operand) :
    Safe Known s (run (.moduleNames module)) := by
  apply (safe_read hs module).bind
  intro s₁ v hs₁ _ _
  apply safe_runtime
  apply (safe_need hs₁ _).bind
  rintro _ names hs₂ _ ⟨rfl, hn⟩
  apply safe_pure hs₂
  have := hs₂.runtime.knows_moduleNames hn
  simpa [Known, Outcome.value?] using this

theorem safe_item (hs : s.Sound) (tuple : Operand) (index : Int) :
    Safe Known s (run (.item tuple index)) := by
  apply (safe_readObject hs _ tuple).bind
  intro s₁ found hs₁ _ hf
  apply safe_pure hs₁
  obtain ⟨o, ho, hi⟩ := hf
  obtain rfl := Object.tuple?_eq_some.mp hi
  exact known_optional fun v hv =>
    (hs₁.runtime.live ho).references v (Tuple.mem_of_item? hv)

theorem safe_concat (hs : s.Sound) (left right : Operand) :
    Safe Known s (run (.concat left right)) := by
  apply (safe_readObject hs _ left).bind
  intro s₁ l hs₁ _ hl
  apply (safe_readObject hs₁ _ right).bind
  intro s₂ r hs₂ changes₂ hr
  obtain ⟨o, ho, hi⟩ := hl
  obtain rfl := Object.tuple?_eq_some.mp hi
  obtain ⟨o', ho', hi'⟩ := hr
  obtain rfl := Object.tuple?_eq_some.mp hi'
  refine safe_value hs₂ (Activity.safe_tuple ((Runtime.knowsAll_append ..).mpr ⟨?_, ?_⟩))
  · exact changes₂.grows.knowsAll (hs₁.runtime.live ho).references
  · exact (hs₂.runtime.live ho').references

theorem safe_entryOf (hs : s.Sound) (dict : Operand) (key : String) :
    Safe Known s (run (.entryOf dict key)) := by
  apply (safe_readObject hs _ dict).bind
  intro s₁ found hs₁ _ hf
  apply safe_pure hs₁
  obtain ⟨o, ho, he⟩ := hf
  obtain rfl := Object.dict?_eq_some.mp he
  exact known_optional fun v hv =>
    (hs₁.runtime.live ho).references v (Dict.mem_values_of_get? hv)

theorem safe_setEntry (hs : s.Sound) (dict : Operand) (key : String) (value : Operand) :
    Safe Known s (run (.setEntry dict key value)) := by
  apply (safe_readObject hs _ dict).bind
  intro s₁ _ hs₁ _ _
  apply (safe_read hs₁ value).bind
  intro s₂ v hs₂ _ hv
  exact safe_done hs₂ (Activity.safe_setInDict hs₂.runtime _ key hv)

theorem safe_eraseEntry (hs : s.Sound) (dict : Operand) (key : String) :
    Safe Known s (run (.eraseEntry dict key)) := by
  apply (safe_readObject hs _ dict).bind
  intro s₁ found hs₁ _ _
  apply (safe_act hs₁ (Activity.safe_eraseInDict hs₁.runtime found.1 key)).bind
  intro s₂ old hs₂ _ ho
  exact safe_pure hs₂ ho

theorem safe_copyDict (hs : s.Sound) (dict : Operand) : Safe Known s (run (.copyDict dict)) := by
  apply (safe_readObject hs _ dict).bind
  intro s₁ found hs₁ _ hf
  obtain ⟨o, ho, he⟩ := hf
  obtain rfl := Object.dict?_eq_some.mp he
  refine safe_value hs₁ ((Activity.safe_allocate (.dict ?_)).weaken fun _ _ _ h => h.1)
  exact (hs₁.runtime.live ho).references

theorem safe_newHostFunction (hs : s.Sound) (code globals : Operand) (qualname : Option String)
    (closure : Option Operand) :
    Safe Known s (run (.newHostFunction code globals qualname closure)) := by
  apply (safe_readObject hs _ code).bind
  intro s₁ c hs₁ _ hc
  apply (safe_read hs₁ globals).bind
  intro s₂ g hs₂ changes₂ hg
  have cells : Safe (fun s closure => ∀ r, (closure.map Prod.fst) = some r →
      s.runtime.Knows (.object r)) s₂ (closure.mapM readTuple) := by
    cases closure with
    | none => exact safe_pure hs₂ (by simp)
    | some cells =>
      apply (safe_readObject hs₂ _ cells).bind
      intro s₃ found hs₃ _ hf
      apply safe_pure hs₃
      rintro _ ⟨⟩
      obtain ⟨o, ho, _⟩ := hf
      exact ⟨o, ho⟩
  apply cells.bind
  intro s₃ closure hs₃ changes₃ hcl
  have grows := changes₂.grows.trans changes₃.grows
  obtain ⟨o, ho, _⟩ := hc
  exact safe_value hs₃ (Activity.safe_newHostFunction hs₃.runtime (grows.knows ⟨o, ho⟩)
    (changes₃.grows.knows hg) hcl)

theorem safe_define (hs : s.Sound) (label : String) (plan : EntryPlan) :
    Safe Known s (run (.define label plan)) := by
  apply (safe_act hs Activity.safe_entryIdent).bind
  intro s₁ ident hs₁ _ _
  apply (safe_modify ⟨hs₁.runtime, hs₁.kept⟩ .refl).bind
  intro s₂ _ hs₂ _ _
  exact safe_pure hs₂ (known_plain rfl)

theorem safe_newBuiltinFunction (hs : s.Sound) (label : String) (receiver module : Option Operand) :
    Safe Known s (run (.newBuiltinFunction label receiver module)) := by
  apply (safe_entry hs label).bind
  intro s₁ entry hs₁ _ _
  dsimp only
  split
  · exact safe_throw_bind hs₁ _ _
  · apply (safe_readOptional hs₁ receiver).bind
    intro s₂ r hs₂ _ hr
    apply (safe_readOptional hs₂ module).bind
    intro s₃ m hs₃ changes₃ hm
    exact safe_value hs₃
      (Activity.safe_newBuiltinFunction entry (changes₃.grows.knowsAll hr) hm)

theorem safe_newNativeFunction (hs : s.Sound) (label : String)
    (receiver module owner : Option Operand) :
    Safe Known s (run (.newNativeFunction label receiver module owner)) := by
  apply (safe_entry hs label).bind
  intro s₁ entry hs₁ _ _
  apply (safe_readOptional hs₁ receiver).bind
  intro s₂ r hs₂ _ hr
  apply (safe_readOptional hs₂ module).bind
  intro s₃ m hs₃ changes₃ hm
  apply (safe_readOptionalType hs₃ owner).bind
  intro s₄ o hs₄ changes₄ ho
  have grows := changes₃.grows.trans changes₄.grows
  exact safe_value hs₄ (Activity.safe_newNativeMethod hs₄.runtime (grows.knowsAll hr)
    (changes₄.grows.knowsAll hm) ho)

theorem safe_addTableToType (hs : s.Sound) (type : Operand) (labels : List String) :
    Safe Known s (run (.addTableToType type labels)) := by
  apply (safe_readType hs type).bind
  intro s₁ id hs₁ _ hi
  apply (safe_entries hs₁ labels).bind
  intro s₂ entries hs₂ changes₂ _
  apply (safe_act hs₂ (Activity.safe_newTable entries)).bind
  intro s₃ table hs₃ changes₃ _
  have grows := changes₂.grows.trans changes₃.grows
  apply (safe_act hs₃ (Activity.safe_addTableToType hs₃.runtime (grows.types.contains hi)
    table)).bind
  intro s₄ _ hs₄ _ _
  exact safe_pure hs₄ (known_plain rfl)

theorem safe_addTableToModule (hs : s.Sound) (module : Operand) (labels : List String) :
    Safe Known s (run (.addTableToModule module labels)) := by
  apply (safe_read hs module).bind
  intro s₁ m hs₁ _ hm
  apply (safe_entries hs₁ labels).bind
  intro s₂ entries hs₂ changes₂ _
  apply (safe_act hs₂ (Activity.safe_newTable entries)).bind
  intro s₃ table hs₃ changes₃ _
  have grows := changes₂.grows.trans changes₃.grows
  apply (safe_act hs₃ (Activity.safe_addTableToModule hs₃.runtime (grows.knows hm) table)).bind
  intro s₄ _ hs₄ _ _
  exact safe_pure hs₄ (known_plain rfl)

theorem safe_bindMethod (hs : s.Sound) (callable receiver : Operand) :
    Safe Known s (run (.bindMethod callable receiver)) := by
  apply (safe_read hs callable).bind
  intro s₁ c hs₁ _ hc
  apply (safe_read hs₁ receiver).bind
  intro s₂ r hs₂ changes₂ hr
  exact safe_value hs₂ (Activity.safe_bindMethod hs₂.runtime (changes₂.grows.knows hc) hr)

theorem safe_bindOnAccess (hs : s.Sound) (callable : Operand)
    (accessor accessingClass : Option Operand) :
    Safe Known s (run (.bindOnAccess callable accessor accessingClass)) := by
  apply (safe_read hs callable).bind
  intro s₁ c hs₁ _ hc
  apply (safe_readOptional hs₁ accessor).bind
  intro s₂ a hs₂ changes₂ ha
  apply (safe_readOptionalType hs₂ accessingClass).bind
  intro s₃ t hs₃ changes₃ ht
  have grows := changes₂.grows.trans changes₃.grows
  exact safe_value hs₃ (Activity.safe_bindOnAccess hs₃.runtime (grows.knows hc)
    (fun v hv => changes₃.grows.knows (ha v (Option.mem_toList.mpr hv))) ht)

theorem safe_setMetadata (hs : s.Sound) (function : Operand) (field : MetadataField)
    (value : Operand) :
    Safe Known s (run (.setMetadata function field value)) := by
  apply (safe_readObject hs _ function).bind
  intro s₁ f hs₁ _ hf
  apply (safe_read hs₁ value).bind
  intro s₂ v hs₂ changes₂ hv
  apply (safe_need hs₂ _).bind
  rintro s₃ metadata hs₃ _ ⟨rfl, hm⟩
  refine safe_runtime ((safe_need hs₃ _).bind ?_)
  rintro s₄ metadata' hs₄ _ ⟨rfl, hm'⟩
  obtain ⟨o, ho, he⟩ := hf
  obtain rfl := Object.function?_eq_some.mp he
  have known := (hs₁.runtime.knows_metadata (Heap.function?_of_get? ho) hm).grow changes₂.grows
  exact safe_done hs₄ (Activity.safe_modifyMetadata hs₄.runtime _ fun _ _ => known.set? hv hm')

theorem safe_watch (hs : s.Sound) (function : Operand) (mark : Int) :
    Safe Known s (run (.watch function mark)) := by
  apply (safe_readObject hs _ function).bind
  intro s₁ f hs₁ _ hf
  obtain ⟨o, ho, he⟩ := hf
  obtain rfl := Object.function?_eq_some.mp he
  have alike := f.2.alike_watchers (f.2.watchers ++ [mark])
  have own := ((Runtime.knowsAll_append ..).mp (hs₁.runtime.live ho).references).2
  have stored := Activity.safe_store ho (.function alike) ((hs₁.runtime.live ho).alike alike own)
  exact (safe_act hs₁ stored).bind fun s₂ _ hs₂ _ _ => safe_pure hs₂ (known_plain rfl)

theorem safe_setAttribute (hs : s.Sound) (target : Operand) (name : String) (value : Operand) :
    Safe Known s (run (.setAttribute target name value)) := by
  apply (safe_read hs target).bind
  intro s₁ t hs₁ _ _
  apply (safe_read hs₁ value).bind
  intro s₂ v hs₂ _ hv
  exact safe_done hs₂ (Activity.safe_setAttribute hs₂.runtime t name hv)

theorem safe_call (hs : s.Sound) (callee : Operand) (args : List Operand) (keywords : List
    (String × Operand)) :
    Safe Known s (run (.call callee args keywords)) := by
  apply safe_called hs callee args keywords
  intro s' callee args keywords hs' hc ha hk
  apply Activity.Agree.holding
  intro rt changes
  exact Activity.safe_call (hs'.runtime.changes changes)
    (changes.grows.knows hc) (changes.grows.knowsAll ha) (changes.grows.knowsAll hk)

theorem safe_callMethod (hs : s.Sound) (receiver : Operand) (name : String) (args : List Operand)
    (keywords : List (String × Operand)) :
    Safe Known s (run (.callMethod receiver name args keywords)) := by
  apply safe_called hs receiver args keywords
  intro s' receiver args keywords hs' hr ha hk
  exact Activity.Agree.holding _ fun rt changes =>
    Activity.safe_callMethod (hs'.runtime.changes changes) name
      (changes.grows.knows hr) (changes.grows.knowsAll ha) (changes.grows.knowsAll hk)

theorem safe_callDirectly (hs : s.Sound) (callee : Operand) (args : List Operand) (keywords : List
    (String × Operand)) :
    Safe Known s (run (.callDirectly callee args keywords)) := by
  apply safe_called hs callee args keywords
  intro s' callee args keywords hs' hc ha hk
  exact Activity.Agree.holding _ fun rt changes =>
    Activity.safe_callDirectly (hs'.runtime.changes changes)
      (changes.grows.knows hc) (changes.grows.knowsAll ha) (changes.grows.knowsAll hk)

theorem safe_enter (hs : s.Sound) (name : String) : Safe Known s (run (.enter name)) := by
  apply safe_runtime
  dsimp only
  split
  · apply (safe_act hs (Activity.safe_modifyThread _)).bind
    intro s₁ _ hs₁ _ _
    apply (safe_modify ⟨hs₁.runtime, hs₁.kept⟩ .refl).bind
    intro s₂ _ hs₂ _ _
    exact safe_pure hs₂ (known_plain rfl)
  · exact safe_throw hs _

theorem safe_leave (hs : s.Sound) : Safe Known s (run .leave) := by
  apply safe_get
  dsimp only
  split
  · exact safe_throw_bind hs _ _
  · apply (safe_act hs (Activity.safe_modifyThread _)).bind
    intro s₁ _ hs₁ _ _
    apply (safe_modify ⟨hs₁.runtime, hs₁.kept⟩ .refl).bind
    intro s₂ _ hs₂ _ _
    exact safe_runtime (safe_pure hs₂ (known_plain rfl))

theorem safe_allocateId (hs : s.Sound) (label : String) :
    Safe Known s (run (.allocateId label)) := by
  apply (safe_registry hs label).bind
  intro s₁ r hs₁ _ _
  apply (safe_setRegistry hs₁ label _).bind
  intro s₂ _ hs₂ _ _
  exact safe_pure hs₂ (known_plain rfl)

theorem safe_register (hs : s.Sound) (label : String) (type : Operand) :
    Safe Known s (run (.register label type)) := by
  apply (safe_registry hs label).bind
  intro s₁ r hs₁ _ _
  apply (safe_readType hs₁ type).bind
  intro s₂ id hs₂ _ _
  apply (safe_setRegistry hs₂ label _).bind
  intro s₃ _ hs₃ _ _
  exact safe_pure hs₃ (known_plain rfl)

theorem safe_typeAttribute (hs : s.Sound) (type : Operand) (name : String) :
    Safe Known s (run (.typeAttribute type name)) := by
  apply (safe_readType hs type).bind
  intro s₁ id hs₁ _ _
  refine safe_runtime (safe_pure hs₁ (known_optional ?_))
  intro v hv
  exact hs₁.runtime.knows_attributes id v (Dict.mem_values_of_get? hv)

theorem safe_inheritedAttribute (hs : s.Sound) (type : Operand) (name : String) :
    Safe Known s (run (.inheritedAttribute type name)) := by
  apply (safe_readType hs type).bind
  intro s₁ id hs₁ _ _
  refine safe_runtime (safe_pure hs₁ (known_optional ?_))
  intro v hv
  exact hs₁.runtime.knows_lookup hv

theorem safe_newInstance (hs : s.Sound) (type : Operand) :
    Safe Known s (run (.newInstance type)) := by
  apply (safe_readType hs type).bind
  intro s₁ id hs₁ _ hi
  exact safe_value hs₁ (Activity.safe_newInstance hi)

theorem safe_getAttribute (hs : s.Sound) (target : Operand) (name : String) :
    Safe Known s (run (.getAttribute target name)) := by
  apply (safe_read hs target).bind
  intro s₁ v hs₁ _ hv
  exact safe_value hs₁ (Activity.safe_getAttribute hs₁.runtime hv name)

theorem safe_takeLog (hs : s.Sound) :
    Safe Known s (run .takeLog) := by
  apply safe_runtime
  apply (safe_act hs (Activity.safe_modifyThread _)).bind
  intro s₁ _ hs₁ _ _
  exact safe_pure hs₁ (known_plain rfl)

theorem safe_newRegistry (hs : s.Sound) (label : String) :
    Safe Known s (run (.newRegistry label)) := by
  apply (safe_setRegistry hs label _).bind
  intro s₁ _ hs₁ _ _
  exact safe_pure hs₁ (known_plain rfl)

theorem safe_run (hs : s.Sound) (operation : Operation) (ht : operation.keepsTypes = true) :
    Safe Known s operation.run := by
  cases operation with
  | newType => simp [keepsTypes] at ht
  | make operand => exact safe_answer (safe_read hs operand)
  | drop name => exact safe_drop hs name
  | addTypeFlags type flags => exact safe_addTypeFlags hs type flags
  | typeAttribute type name => exact safe_typeAttribute hs type name
  | inheritedAttribute type name => exact safe_inheritedAttribute hs type name
  | setTypeAttribute type name value => exact safe_setTypeAttribute hs type name value
  | eraseTypeAttribute type name => exact safe_eraseTypeAttribute hs type name
  | newInstance type => exact safe_newInstance hs type
  | newModule name => exact safe_value hs (Activity.safe_newModule name)
  | moduleNames module => exact safe_moduleNames hs module
  | item tuple index => exact safe_item hs tuple index
  | concat left right => exact safe_concat hs left right
  | entryOf dict key => exact safe_entryOf hs dict key
  | setEntry dict key value => exact safe_setEntry hs dict key value
  | eraseEntry dict key => exact safe_eraseEntry hs dict key
  | copyDict dict => exact safe_copyDict hs dict
  | newCode plan => exact safe_answer (safe_makeCode hs plan)
  | newHostFunction code globals qualname closure =>
    exact safe_newHostFunction hs code globals qualname closure
  | define label plan => exact safe_define hs label plan
  | newBuiltinFunction label receiver module =>
    exact safe_newBuiltinFunction hs label receiver module
  | newNativeFunction label receiver module owner =>
    exact safe_newNativeFunction hs label receiver module owner
  | newClosure name body => exact safe_value hs (Activity.safe_newClosure name body)
  | addTableToType type labels => exact safe_addTableToType hs type labels
  | addTableToModule module labels => exact safe_addTableToModule hs module labels
  | bindMethod callable receiver => exact safe_bindMethod hs callable receiver
  | bindOnAccess callable accessor accessingClass =>
    exact safe_bindOnAccess hs callable accessor accessingClass
  | setMetadata function field value => exact safe_setMetadata hs function field value
  | watch function mark => exact safe_watch hs function mark
  | getAttribute target name => exact safe_getAttribute hs target name
  | setAttribute target name value => exact safe_setAttribute hs target name value
  | call callee args keywords => exact safe_call hs callee args keywords
  | callMethod receiver name args keywords => exact safe_callMethod hs receiver name args keywords
  | callDirectly callee args keywords => exact safe_callDirectly hs callee args keywords
  | profile events => exact safe_done hs (Activity.safe_modifyThread _)
  | stopProfile => exact safe_done hs (Activity.safe_modifyThread _)
  | takeLog => exact safe_takeLog hs
  | resetCounts => exact safe_done hs (Activity.safe_modifyThread _)
  | setLimit limit => exact safe_done hs (Activity.safe_modifyThread _)
  | enter name => exact safe_enter hs name
  | leave => exact safe_leave hs
  | newRegistry label => exact safe_newRegistry hs label
  | allocateId label => exact safe_allocateId hs label
  | register label type => exact safe_register hs label type

end Operation
end Callables
