import Callables.Proofs.Annotations

namespace Callables

/-- A read that is answered in the same way in two states: it fails alike, answers the same value,
or something that it has just made, of the same content. -/
inductive Runtime.SameAnswer (rt rt' : Runtime) (v : Value) (name : String) : Prop
  | failure {cause : CallError}
      (before : ((Activity.getAttribute v name).run rt).1 = .error cause)
      (after : ((Activity.getAttribute v name).run rt').1 = .error cause)
  | value {u : Value} (there : rt.Knows u)
      (before : ((Activity.getAttribute v name).run rt).1 = .ok u)
      (after : ((Activity.getAttribute v name).run rt').1 = .ok u)
  | made {o : Object}
      (before : ((Activity.getAttribute v name).run rt).1 = .ok (.object rt.heap.nextRef))
      (after : ((Activity.getAttribute v name).run rt').1 = .ok (.object rt'.heap.nextRef))
      (content : ((Activity.getAttribute v name).run rt).2.heap.get? rt.heap.nextRef = some o)
      (content' : ((Activity.getAttribute v name).run rt').2.heap.get? rt'.heap.nextRef = some o)

namespace Activity

variable {rt : Runtime}

theorem run_of_toOption {α : Type} {a : Activity α} {v : α}
    (answers : (a.run rt).1.toOption = some v) : a.run rt = (.ok v, (a.run rt).2) := by
  rcases ran : a.run rt with ⟨_ | u, after⟩
  · rw [ran] at answers
    cases answers
  · rw [ran] at answers
    rw [show u = v from Option.some.inj answers]

/-- Changing the metadata of a function leaves all dicts. -/
theorem modifyMetadata_dict {place : Ref} {entries : Dict Value}
    (found : rt.heap.get? place = some (.dict entries)) (r : Ref) (change : Metadata → Metadata) :
    ∃ rt', (modifyMetadata r change).run rt = (.ok (), rt') ∧
      rt'.heap.get? place = some (.dict entries) := by
  unfold modifyMetadata
  rw [run_get]
  split
  · rename_i f here
    cases f.metadata? with
    | none => exact ⟨rt, rfl, found⟩
    | some m =>
      have apart : place ≠ r := by
        rintro rfl
        cases found.symm.trans here
      exact ⟨_, run_store here _, (Heap.get?_set_of_ne _ _ apart).trans found⟩
  · exact ⟨rt, rfl, found⟩

/-- A dict that is made for a field of metadata is new and empty. -/
theorem run_dictFor_empty (rt : Runtime) (r : Ref) (set : Ref → Metadata → Metadata) :
    ∃ rt', (dictFor r none set).run rt = (.ok rt.heap.nextRef, rt') ∧
      rt'.heap.get? rt.heap.nextRef = some (.dict .empty) := by
  let pushed : Runtime := ((allocate (.dict .empty)).run rt).2
  have there : pushed.heap.get? rt.heap.nextRef = some (.dict .empty) :=
    (Heap.get?_push ..).trans (if_pos rfl)
  obtain ⟨rt', run, dict⟩ := modifyMetadata_dict there r (set rt.heap.nextRef)
  refine ⟨rt', ?_, dict⟩
  change (modifyMetadata r (set rt.heap.nextRef) >>= fun _ => pure rt.heap.nextRef).run pushed = _
  rw [run_bind, run]
  rfl

theorem run_reading_dict (rt : Runtime) (r : Ref) (field : MetadataField) :
    ∃ rt', (Reading.dict r field).run.run rt = (.ok (.object rt.heap.nextRef), rt') ∧
      rt'.heap.get? rt.heap.nextRef = some (.dict .empty) := by
  obtain ⟨rt', run, dict⟩ := run_dictFor_empty rt r (Metadata.withDict field)
  refine ⟨rt', ?_, dict⟩
  unfold Reading.run
  rw [run_bind, run]
  rfl

end Activity

namespace Runtime

variable {rt rt' : Runtime} {v : Value} {name : String}

/-- What comes to the same is answered in the same way. -/
theorem sameAnswer_of_reading (sound : rt.Sound) (known : rt.Knows v)
    (same : rt'.reading v name = rt.reading v name) (text : rt'.nextText = rt.nextText) :
    rt.SameAnswer rt' v name := by
  have before : (Activity.getAttribute v name).run rt = _ := Activity.run_getAttribute v name
  have after : (Activity.getAttribute v name).run rt' = _ := Activity.run_getAttribute v name
  rw [same] at after
  cases hr : rt.reading v name with
  | failure cause =>
    rw [hr] at before after
    exact .failure (congrArg Prod.fst before) (congrArg Prod.fst after)
  | value u =>
    rw [hr] at before after
    have there := (Activity.safe_getAttribute sound known name).value u (congrArg Prod.fst before)
    rw [before] at there
    exact .value there (congrArg Prod.fst before) (congrArg Prod.fst after)
  | text content =>
    rw [hr] at before after
    refine .value (u := .text ⟨rt.nextText, content⟩) trivial (congrArg Prod.fst before) ?_
    rw [← text]
    exact congrArg Prod.fst after
  | wrapper w =>
    rw [hr] at before after
    refine .made (o := .function w) (congrArg Prod.fst before) (congrArg Prod.fst after) ?_ ?_
    · rw [before]
      exact (Heap.get?_push ..).trans (if_pos rfl)
    · rw [after]
      exact (Heap.get?_push ..).trans (if_pos rfl)
  | dict r field =>
    obtain ⟨_, made, content⟩ := Activity.run_reading_dict rt r field
    obtain ⟨_, made', content'⟩ := Activity.run_reading_dict rt' r field
    rw [hr, made] at before
    rw [hr, made'] at after
    refine .made (o := .dict .empty) (congrArg Prod.fst before) (congrArg Prod.fst after) ?_ ?_
    · rw [before]
      exact content
    · rw [after]
      exact content'

/-- Where a field was set, the other fields are answered as before. -/
theorem metadataReading_same {r : Ref} {f : Function} {m m' : Metadata} {field : MetadataField}
    (same : m.SameBut field m') {key : String}
    (other : SpecialAttribute.named? key ≠ some field.special)
    (label : rt'.noAttribute (.object r) key = rt.noAttribute (.object r) key)
    (own : (rt'.heap.entriesAt m'.attributes).get? key =
      (rt.heap.entriesAt m.attributes).get? key) :
    rt'.metadataReading r (f.withMetadata m') m' key = rt.metadataReading r f m key := by
  have owner : rt'.ownerReading (.object r) (f.withMetadata m') key =
      rt.ownerReading (.object r) f key := by
    unfold ownerReading
    rw [label]
    rfl
  have owned : rt'.ownReading r m' key = rt.ownReading r m key := by
    unfold ownReading
    rw [own, label]
  unfold metadataReading
  rw [owner, owned, f.isHost_withMetadata, same.globals, same.closure]
  cases named : SpecialAttribute.named? key with
  | none => rfl
  | some special =>
    dsimp only
    cases hf : special.field? with
    | none => rfl
    | some field' =>
      have apart : field' ≠ field := by
        rintro rfl
        exact other (named.trans (congrArg some (SpecialAttribute.field?_eq_some_iff.mp hf)))
      dsimp only
      unfold Function.fieldReading
      rw [same.others field' apart]
      rfl

/-- A field that was set answers the value, but for annotations that were cleared. -/
theorem fieldReading_of_set {f : Function} {r : Ref} {m m' : Metadata} {field : MetadataField}
    {value : Value} {h : Heap} (set : m.set? h field value = some m')
    (held : (m'.at? field).getD .none = value)
    (given : field = .annotations → value ≠ .none) :
    f.fieldReading r m' field = .value value := by
  unfold Function.fieldReading
  cases ha : m'.at? field with
  | some v =>
    rw [ha] at held
    exact congrArg Reading.value held
  | none =>
    rw [ha] at held
    cases field with
    | name | qualname | doc => cases ha
    | module =>
      obtain rfl := Option.some.inj set
      cases ha
    | attributes =>
      obtain ⟨_, -, rfl⟩ := Option.map_eq_some_iff.mp set
      cases ha
    | code | defaults | keywordDefaults => exact congrArg Reading.value held
    | annotations => exact absurd held.symm (given rfl)

namespace Leaves

/-- The function itself is there with its new metadata. -/
theorem baseFunction?_at {r : Ref} (h : rt.Leaves r rt') {f g : Function}
    (hf : rt.baseFunction? (.object r) = some f) (here : rt'.heap.get? r = some (.function g)) :
    rt'.baseFunction? (.object r) = some g := by
  have known : rt.Knows (.object r) := knows_of_function? (function?_of_baseFunction? hf)
  unfold Runtime.baseFunction? at hf ⊢
  have type : rt'.typeOf (.object r) = rt.typeOf (.object r) := by
    unfold Runtime.typeOf
    rw [(h.alike known).typeIdOf, h.types]
  rw [type]
  split at hf
  · rename_i promised
    rw [if_pos promised]
    exact Heap.function?_of_get? here
  · cases hf

end Leaves

section Stored

variable {r : Ref} {f : Function} {m : Metadata} {value : Value}

theorem leaves_storing (here : rt.heap.get? r = some (.function f)) (m' : Metadata) :
    rt.Leaves r (rt.storing r (.function f) (.function (f.withMetadata m'))) :=
  ⟨rfl, rfl, .set here (Object.core_metadata ..),
    fun ho apart _ => (Heap.get?_set_of_ne _ _ apart).trans ho⟩

theorem entriesAt_storing (here : rt.heap.get? r = some (.function f)) (m' : Metadata)
    (place : Option Ref) :
    (rt.storing r (.function f) (.function (f.withMetadata m'))).heap.entriesAt place =
      rt.heap.entriesAt place := by
  have self : (rt.storing r (.function f) (.function (f.withMetadata m'))).heap.get? r =
      some (.function (f.withMetadata m')) :=
    Heap.get?_set_self _ (Heap.lt_size_of_get? here)
  exact Heap.entriesAt_of_function here self fun p _ hr => Heap.get?_set_of_ne _ _ hr

theorem leaves_of_stored (here : rt.heap.get? r = some (.function f))
    (stored : Activity.Stored rt r f m name value (.ok (), rt')) : rt.Leaves r rt' := by
  cases stored with
  | @field field m' named takes set held => exact leaves_storing here m'
  | entry ordinary set => exact set.leaves

theorem reading_field (hf : rt.baseFunction? (.object r) = some f) (hm : f.metadata? = some m)
    {field : MetadataField} (named : SpecialAttribute.named? name = some field.special)
    (host : field.isHostOnly = true → f.isHost = true) (m' : Metadata) :
    (rt.storing r (.function f) (.function (f.withMetadata m'))).reading (.object r) name =
      (f.withMetadata m').fieldReading r m' field := by
  obtain ⟨_, ⟨⟩, here⟩ := Heap.get?_of_function? (function?_of_baseFunction? hf)
  have hf' := (leaves_storing here m').baseFunction?_at hf
    (Heap.get?_set_self _ (Heap.lt_size_of_get? here))
  have found : field.special.field? = some field := SpecialAttribute.field?_eq_some_iff.mpr rfl
  have answers : (field.isHostOnly && !(f.withMetadata m').isHost) = false := by
    rw [f.isHost_withMetadata]
    cases only : field.isHostOnly with
    | false => rfl
    | true => rw [host only]; rfl
  rw [reading_of_metadata? hf' (Function.metadata?_withMetadata hm m'), metadataReading]
  simp only [named, found, answers]
  rfl

theorem reading_of_stored (hf : rt.baseFunction? (.object r) = some f)
    (hm : f.metadata? = some m) (stored : Activity.Stored rt r f m name value (.ok (), rt'))
    (given : ¬ (name = "__annotations__" ∧ value = .none)) :
    rt'.reading (.object r) name = .value value := by
  cases stored with
  | @field field m' named takes set held =>
    rw [reading_field hf hm named takes.host m']
    refine fieldReading_of_set set held ?_
    rintro rfl cleared
    exact given ⟨SpecialAttribute.named?_inj named rfl, cleared⟩
  | @entry dict m' _ ordinary set =>
    have hf' := set.leaves.baseFunction?_at hf set.here
    rw [reading_of_metadata? hf' (Function.metadata?_withMetadata hm m'), metadataReading]
    simp only [ordinary]
    unfold ownReading
    rw [set.attributes, Heap.entriesAt_of_dict set.entries, Dict.get?_set_self]

/-- Annotations that were cleared are made when they are read, and are the same from then on. -/
theorem annotations_of_stored (builtin : Types.initial.Grows rt.types)
    (hf : rt.baseFunction? (.object r) = some f) (hm : f.metadata? = some m)
    (stored : Activity.Stored rt r f m "__annotations__" .none (.ok (), rt')) :
    ∃ rt₁, (Activity.getAttribute (.object r) "__annotations__").run rt' =
        (.ok (.object rt'.heap.nextRef), rt₁) ∧
      rt₁.heap.get? rt'.heap.nextRef = some (.dict .empty) ∧
      rt₁.Annotates r rt'.heap.nextRef ∧ ∃ o, rt₁.heap.get? r = some o := by
  obtain ⟨_, ⟨⟩, here⟩ := Heap.get?_of_function? (function?_of_baseFunction? hf)
  cases stored with
  | entry ordinary set => cases ordinary
  | @field field m' named takes set held =>
    obtain rfl : MetadataField.annotations = field :=
      MetadataField.special_inj (Option.some.inj named)
    have empty : m'.annotations = none := by
      obtain rfl := Option.some.inj set
      rfl
    -- the first read makes the dict and keeps it in the metadata
    let cleared := rt.storing r (.function f) (.function (f.withMetadata m'))
    have here' : cleared.heap.get? r = some (.function (f.withMetadata m')) :=
      Heap.get?_set_self _ (Heap.lt_size_of_get? here)
    have hm' := Function.metadata?_withMetadata hm m'
    have read : cleared.reading (.object r) "__annotations__" = .dict r .annotations := by
      rw [reading_field hf hm named takes.host m']
      simp [Function.fieldReading, Metadata.at?, empty]
    have made := Activity.run_dictFor_none here' hm' (Metadata.withDict .annotations)
    have run : (Activity.getAttribute (.object r) "__annotations__").run cleared = _ :=
      Activity.run_getAttribute _ _
    rw [read, Reading.run, run_bind, made] at run
    have there := get?_giving_self here' (Metadata.withDict .annotations cleared.heap.nextRef m')
    have host := takes.host rfl
    refine ⟨_, run, get?_giving_dict here' _,
      ⟨builtin, Heap.lt_size_of_get? there, fun found => ?_⟩, _, there⟩
    obtain rfl := Option.some.inj (there.symm.trans found)
    change Object.annotations? (.function _) = some cleared.heap.nextRef
    simp [Object.annotations?, Function.isHost_withMetadata, host,
      Function.metadata?_withMetadata hm', Metadata.withDict]

/-- A name other than that of a field does not stand for the field. -/
theorem named?_ne_of_ne {key : String} {special : SpecialAttribute}
    (named : SpecialAttribute.named? name = some special) (other : key ≠ name) :
    SpecialAttribute.named? key ≠ some special :=
  fun same => other (SpecialAttribute.named?_inj same named)

/-- The function and its wrappers answer all other attributes as before. Only the attribute dict may
be there now, with the new entry in it. -/
theorem reading_kept (sound : rt.Sound) (hf : rt.baseFunction? (.object r) = some f)
    (hm : f.metadata? = some m) (stored : Activity.Stored rt r f m name value (.ok (), rt'))
    (plain : name ≠ "__dict__") {u : Value} (known : rt.Knows u)
    (inner : rt.heap.innermost u = .object r) {key : String} (other : key ≠ name)
    (aside : SpecialAttribute.named? name = none → key ≠ "__dict__") :
    rt'.reading u key = rt.reading u key := by
  have there := function?_of_baseFunction? hf
  obtain ⟨_, ⟨⟩, here⟩ := Heap.get?_of_function? there
  have knows : rt.Knows (.object r) := knows_of_function? there
  cases stored with
  | @field field m' named takes set held =>
    have leaves := leaves_storing here m'
    have same := Metadata.sameBut_of_set? set
    have attributes : m'.attributes = m.attributes := by
      have apart : MetadataField.attributes ≠ field := by
        rintro rfl
        exact plain (SpecialAttribute.named?_inj named rfl)
      exact same.attributes apart
    refine (leaves.resembles sound).reading_of_innermost sound (leaves.alike known) ?_
    have hf' := leaves.baseFunction?_at hf (Heap.get?_set_self _ (Heap.lt_size_of_get? here))
    rw [inner, directReading_of_metadata? hf hm,
      directReading_of_metadata? hf' (Function.metadata?_withMetadata hm m')]
    refine metadataReading_same same (named?_ne_of_ne named other)
      ((leaves.resembles sound).noAttribute (leaves.alike knows) key) ?_
    rw [entriesAt_storing here, attributes]
  | @entry dict m' _ ordinary set =>
    refine (set.leaves.resembles sound).reading_of_innermost sound (set.leaves.alike known) ?_
    have hf' := set.leaves.baseFunction?_at hf set.here
    rw [inner, directReading_of_metadata? hf hm,
      directReading_of_metadata? hf' (Function.metadata?_withMetadata hm m')]
    -- the field that has changed is the attribute dict itself, and that is not what is asked for
    have attributes : SpecialAttribute.named? "__dict__" = some .attributes := rfl
    refine metadataReading_same set.same (named?_ne_of_ne attributes (aside ordinary))
      ((set.leaves.resembles sound).noAttribute (set.leaves.alike knows) key) ?_
    rw [set.attributes, Heap.entriesAt_of_dict set.entries, Dict.get?_set_of_ne _ _ other]

/-- Two values keep their attributes in the same dict. -/
def SharesDict (rt : Runtime) (x u : Value) : Prop :=
  ∃ dict, rt.attributePlace? x = some dict ∧ rt.attributePlace? u = some dict

theorem attributePlace?_of_metadata? (hf : rt.baseFunction? (.object r) = some f)
    (hm : f.metadata? = some m) : rt.attributePlace? (.object r) = m.attributes := by
  have there := function?_of_baseFunction? hf
  have direct : rt.heap.innermost (.object r) = .object r :=
    innermost_of_direct (by simp [there, wrapped?_of_metadata? hm])
  rw [attributePlace?, direct, directPlace?_of_function there hm]

/-- Where a value keeps its attributes there is something. -/
theorem Occurs.there_of_attributePlace? {liberty : Liberty} (h : rt.Occurs liberty) {u : Value}
    {place : Ref} (hp : rt.attributePlace? u = some place) :
    ∃ o, rt.heap.get? place = some o := by
  unfold attributePlace? at hp
  cases hu : rt.heap.innermost u with
  | object q =>
    rw [hu] at hp
    obtain ⟨o, ho, hp⟩ := Option.bind_eq_some_iff.mp hp
    cases o with
    | ofClass type attributes =>
      cases hp
      exact ⟨_, ho⟩
    | module _ _ =>
      cases hp
      obtain ⟨entries, he⟩ := (h.arises.formed q _ ho).dict _ _ rfl
      exact ⟨_, he⟩
    | function g =>
      obtain ⟨m, hm, hp⟩ := Option.bind_eq_some_iff.mp hp
      obtain ⟨entries, he⟩ := ((h.orderly q g ho).sorted m hm).attributes place hp
      exact ⟨_, he⟩
    | tuple | dict | code | closure => cases hp
  | none | bool | int | float | text | type =>
    rw [hu] at hp
    cases hp

/-- Everybody else answers as before, but for the entry of a dict that is shared. -/
theorem Occurs.reading_elsewhere {liberty : Liberty} (h : rt.Occurs liberty)
    (hf : rt.baseFunction? (.object r) = some f) (hm : f.metadata? = some m)
    (stored : Activity.Stored rt r f m name value (.ok (), rt')) {u : Value} (known : rt.Knows u)
    (other : rt.heap.innermost u ≠ .object r) {key : String}
    (apart : key = name → SpecialAttribute.named? name = none → ¬ rt.SharesDict (.object r) u) :
    rt'.reading u key = rt.reading u key := by
  obtain ⟨_, ⟨⟩, here⟩ := Heap.get?_of_function? (function?_of_baseFunction? hf)
  cases stored with
  | @field field m' named takes set held =>
    refine (leaves_storing here m').reading h.sound known other ?_
    rw [entriesAt_storing here]
  | @entry dict m' _ ordinary set =>
    refine set.leaves.reading h.sound known other ?_
    by_cases shared : rt.attributePlace? u = some dict
    · obtain ⟨o, ho⟩ := h.there_of_attributePlace? shared
      have attributes := set.attributes_of_some ho
      have different : key ≠ name := fun same =>
        apart same ordinary ⟨dict, (attributePlace?_of_metadata? hf hm).trans attributes, shared⟩
      rw [shared, Heap.entriesAt_of_dict set.entries, Dict.get?_set_of_ne _ _ different, attributes]
    · rw [set.elsewhere _ shared]

/-- All other objects are the same, but for the attribute dict if an entry has been set. -/
theorem get?_of_stored (stored : Activity.Stored rt r f m name value (.ok (), rt')) {place : Ref}
    {o : Object} (found : rt.heap.get? place = some o) (other : place ≠ r)
    (apart : SpecialAttribute.named? name = none → m.attributes ≠ some place) :
    rt'.heap.get? place = some o := by
  cases stored with
  | @field field m' named takes set held => exact (Heap.get?_set_of_ne _ _ other).trans found
  | @entry dict m' _ ordinary set =>
    cases plain : o.dict? with
    | none => exact set.leaves.others found other plain
    | some entries =>
      obtain rfl := Object.dict?_eq_some.mp plain
      obtain ⟨entries', found'⟩ := set.leaves.builds.dicts found
      have elsewhere : some place ≠ some dict := by
        rintro ⟨⟩
        exact apart ordinary (set.attributes_of_some found)
      have same := set.elsewhere _ elsewhere
      rw [Heap.entriesAt_of_dict found, Heap.entriesAt_of_dict found'] at same
      rw [found', same]

/-- The attribute dict has the new entry, and is read as it is. -/
theorem dictionary_of_stored (hf : rt.baseFunction? (.object r) = some f)
    (hm : f.metadata? = some m) (ordinary : SpecialAttribute.named? name = none)
    (stored : Activity.Stored rt r f m name value (.ok (), rt')) :
    ∃ dict, rt'.reading (.object r) "__dict__" = .value (.object dict) ∧
      rt'.heap.get? dict = some (.dict ((rt.heap.entriesAt m.attributes).set name value)) ∧
      (∀ d, m.attributes = some d → dict = d) ∧
      (m.attributes = none → rt.heap.get? dict = none) := by
  cases stored with
  | field named =>
    rw [ordinary] at named
    cases named
  | @entry dict m' _ _ set =>
    refine ⟨dict, ?_, set.entries, set.kept, set.fresh⟩
    have hf' := set.leaves.baseFunction?_at hf set.here
    have named : SpecialAttribute.named? "__dict__" = some .attributes := rfl
    rw [reading_of_metadata? hf' (Function.metadata?_withMetadata hm m'), metadataReading]
    simp [named, SpecialAttribute.field?, MetadataField.isHostOnly, Function.fieldReading,
      Metadata.at?, set.attributes]

end Stored

structure Remembers (rt : Runtime) (r : Ref) (name : String) (value : Value) (rt' : Runtime) :
    Prop where
  stored : ¬ (name = "__annotations__" ∧ value = .none) →
    (Activity.getAttribute (.object r) name).run rt' = (.ok value, rt')
  /-- Annotations that are cleared are read as a new empty dict, and as that very dict from then on
  until others are assigned: whatever else is read or assigned in between, and whatever calls and
  operations there are. -/
  cleared : name = "__annotations__" → value = .none → ∃ dict read,
    (Activity.getAttribute (.object r) name).run rt' = (.ok (.object dict), read) ∧
      rt'.heap.get? dict = none ∧ read.heap.get? dict = some (.dict .empty) ∧
      (∀ accesses : List Access,
        (∀ access ∈ accesses, access.assigns? ≠ some (.object r, name)) →
          (Activity.getAttribute (.object r) name).run (accesses.foldl Access.after read) =
            (.ok (.object dict), accesses.foldl Access.after read)) ∧
      ∀ later, read.Spares dict later → later.heap.get? r = none ∨
        (Activity.getAttribute (.object r) name).run later = (.ok (.object dict), later)
  /-- The function, and with it who wraps it, answers all other attributes as before. -/
  kept : name ≠ "__dict__" → ∀ u key, rt.Knows u → rt.heap.innermost u = .object r →
    key ≠ name → (SpecialAttribute.named? name = none → key ≠ "__dict__") →
      rt.SameAnswer rt' u key
  /-- An attribute that is not special is an entry of the attribute dict, next to those that were
  there. A function that had no such dict has a new one. -/
  dictionary : SpecialAttribute.named? name = none → ∃ dict,
    (Activity.getAttribute (.object r) "__dict__").run rt' = (.ok (.object dict), rt') ∧
      rt'.heap.get? dict = some
        (.dict ((rt.heap.entriesAt (rt.attributePlace? (.object r))).set name value)) ∧
      (∀ d, rt.attributePlace? (.object r) = some d → dict = d) ∧
      (rt.attributePlace? (.object r) = none → rt.heap.get? dict = none)
  /-- Everybody else answers as before, but for that entry of a dict that is shared. -/
  others : ∀ u key, rt.Knows u → rt.heap.innermost u ≠ .object r →
    (key = name → SpecialAttribute.named? name = none → ¬ rt.SharesDict (.object r) u) →
      rt.SameAnswer rt' u key
  /-- All other objects are the same, but for the attribute dict if it has got the entry. -/
  objects : ∀ place o, rt.heap.get? place = some o → place ≠ r →
    (SpecialAttribute.named? name = none → rt.attributePlace? (.object r) ≠ some place) →
      rt'.heap.get? place = some o

structure StoreLaws (rt : Runtime) (r : Ref) (f : Function) (name : String) (value : Value) :
    Prop where
  refused : ∀ cause rt', (Activity.setAttribute (.object r) name value).run rt =
    (.error cause, rt') → rt' = rt
  /-- Builtin functions and bound wrappers refuse all assignments. -/
  bare : f.metadata? = none →
    ∃ cause, (Activity.setAttribute (.object r) name value).run rt = (.error cause, rt)
  /-- All other functions accept what is no special attribute, and what its field takes. -/
  accepted : ∀ m, f.metadata? = some m →
    ((∃ rt', (Activity.setAttribute (.object r) name value).run rt = (.ok (), rt')) ↔
      f.Accepts rt.heap m name value)
  assigned : ∀ rt', (Activity.setAttribute (.object r) name value).run rt = (.ok (), rt') →
    rt.Remembers r name value rt'

theorem Occurs.remembers {liberty : Liberty} (occurs : rt.Occurs liberty) {r : Ref} {f : Function}
    {m : Metadata} (hf : rt.baseFunction? (.object r) = some f) (hm : f.metadata? = some m)
    {value : Value} (stored : Activity.Stored rt r f m name value (.ok (), rt')) :
    rt.Remembers r name value rt' := by
  have place := attributePlace?_of_metadata? hf hm
  obtain ⟨_, ⟨⟩, here⟩ := Heap.get?_of_function? (function?_of_baseFunction? hf)
  have text := (leaves_of_stored here stored).nextText
  constructor
  case stored =>
    intro given
    rw [Activity.run_getAttribute, reading_of_stored hf hm stored given]
    rfl
  case cleared =>
    rintro rfl rfl
    obtain ⟨read, run, content, annotates, _, there⟩ :=
      annotations_of_stored occurs.sound.builtin hf hm stored
    refine ⟨_, read, run, rt'.heap.get?_nextRef, content, fun accesses spared => ?_,
      fun later spares => ?_⟩
    · obtain ⟨annotates, _, there⟩ := annotates.accesses spared there
      exact annotates.run_getAttribute there
    · cases still : later.heap.get? r with
      | none => exact .inl rfl
      | some o => exact .inr ((annotates.spares spares).run_getAttribute still)
  case kept =>
    intro plain u key known inner other aside
    exact sameAnswer_of_reading occurs.sound known
      (reading_kept occurs.sound hf hm stored plain known inner other aside) text
  case dictionary =>
    intro ordinary
    obtain ⟨dict, read, entries, kept, fresh⟩ := dictionary_of_stored hf hm ordinary stored
    rw [place]
    refine ⟨dict, ?_, entries, kept, fresh⟩
    rw [Activity.run_getAttribute, read]
    rfl
  case others =>
    intro u key known other apart
    exact sameAnswer_of_reading occurs.sound known
      (occurs.reading_elsewhere hf hm stored known other apart) text
  case objects =>
    rw [place]
    exact fun _ _ found other apart => get?_of_stored stored found other apart

/-- Assigning attributes to functions obeys the store laws, in all states that occur. -/
theorem Occurs.store_laws {liberty : Liberty} (occurs : rt.Occurs liberty) {r : Ref} {f : Function}
    (here : rt.heap.get? r = some (.function f)) (name : String) (value : Value) :
    rt.StoreLaws r f name value := by
  have hf := occurs.sound.baseFunction?_eq (Heap.function?_of_get? here)
  have run : (Activity.setAttribute (.object r) name value).run rt =
      (Activity.setFunctionAttribute r f name value).run rt := by
    unfold Activity.setAttribute
    rw [Activity.run_get]
    simp only [hf]
  cases hm : f.metadata? with
  | none =>
    obtain ⟨cause, bare⟩ := Activity.run_setFunctionAttribute_bare rt r hm name value
    have refuses := run.trans bare
    constructor
    case refused => exact fun _ _ ok => (congrArg Prod.snd (refuses.symm.trans ok)).symm
    case bare => exact fun _ => ⟨cause, refuses⟩
    case accepted =>
      intro m some
      cases hm.symm.trans some
    case assigned =>
      intro _ ok
      cases refuses.symm.trans ok
  | some m =>
    have result := Activity.stored here hm ((occurs.orderly r f here).sorted m hm) name value
    rw [← run] at result
    constructor
    case refused =>
      intro cause rt' ok
      rw [ok] at result
      cases result
      rfl
    case bare =>
      intro none
      cases hm.symm.trans none
    case accepted =>
      intro m' same
      obtain rfl := Option.some.inj (hm.symm.trans same)
      constructor
      · rintro ⟨rt', ok⟩
        rw [ok] at result
        exact result.accepts
      · intro accepts
        rcases ends : (Activity.setAttribute (.object r) name value).run rt with ⟨ended, rt'⟩
        rw [ends] at result
        cases result with
        | refused cause unfit => exact absurd accepts unfit
        | field | entry => exact ⟨_, rfl⟩
    case assigned =>
      intro rt' ok
      rw [ok] at result
      exact occurs.remembers hf hm result

/-- Two functions that keep their attributes in the same dict. A call gives one to the function. -/
def sharing : Session :=
  (Session.start .standard .empty).run [
    (.newCode ⟨"f", none, none, .ofNames [], [],
      .setAttribute .function "called" (.constant (.bool true))⟩, some "code"),
    (.newHostFunction (.kept "code") (.dict []) none none, some "f"),
    (.newHostFunction (.kept "code") (.dict []) none none, some "g"),
    (.make (.dict []), some "dict"),
    (.setAttribute (.kept "f") "__dict__" (.kept "dict"), none),
    (.setAttribute (.kept "g") "__dict__" (.kept "dict"), none)]

theorem sharing_reachable : sharing.Reachable :=
  (Session.Reachable.start _ _).run (by decide +kernel)

/-- The annotations of the one function are cleared: they are read as a new dict, which stays while
other attributes are assigned, also the annotations of the other function, and while the function is
called. The other function answers as before. -/
theorem store_laws_sharing :
    let cleared := ((Activity.setAttribute (.object 2) "__annotations__" .none).run
      sharing.runtime).2
    let read := ((Activity.getAttribute (.object 2) "__annotations__").run cleared).2
    let accessed := [Access.assign (.object 4) "__annotations__" .none,
      .assign (.object 2) "note" (.int 7), .read (.object 2) "__doc__"].foldl Access.after read
    let called := ((Activity.call (.object 2) [] []).run read).2
    (Activity.setAttribute (.object 2) "__annotations__" .none).run sharing.runtime =
        (.ok (), cleared) ∧
      (Activity.getAttribute (.object 2) "__annotations__").run cleared = (.ok (.object 6), read) ∧
      sharing.runtime.SameAnswer cleared (.object 4) "__annotations__" ∧
      (Activity.getAttribute (.object 2) "__annotations__").run accessed =
        (.ok (.object 6), accessed) ∧
      (Activity.getAttribute (.object 2) "__annotations__").run called =
        (.ok (.object 6), called) := by
  have there : (sharing.runtime.heap.function? (.object 2)).isSome := by decide +kernel
  obtain ⟨f, hf⟩ := Option.isSome_iff_exists.mp there
  obtain ⟨_, ⟨⟩, here⟩ := Heap.get?_of_function? hf
  have occurs := Occurs.of_session sharing_reachable.reached
  have laws := Occurs.store_laws occurs here "__annotations__" .none
  intro cleared read accessed called
  have assigned : (Activity.setAttribute (.object 2) "__annotations__" .none).run
      sharing.runtime = (.ok (), cleared) :=
    Activity.run_of_toOption (by decide +kernel)
  have made : (Activity.getAttribute (.object 2) "__annotations__").run cleared =
      (.ok (.object 6), read) :=
    Activity.run_of_toOption (by decide +kernel)
  have remembers := laws.assigned cleared assigned
  obtain ⟨dict, _, first, -, -, accesses, stages⟩ := remembers.cleared rfl rfl
  obtain ⟨same, rfl⟩ := Prod.mk.inj (first.symm.trans made)
  obtain rfl : dict = 6 := Value.object.inj (Except.ok.inj same)
  have known : sharing.runtime.Knows (.object 4) := by
    have found : (sharing.runtime.heap.get? 4).isSome := by decide +kernel
    exact Option.isSome_iff_exists.mp found
  have spared : (read.noted called).all (!·.unannotates 6) = true := by decide +kernel
  have stage : read.Spares 6 called :=
    .single ⟨_, .call read (.call (.object 2) [] []), spared⟩
  have still : (called.heap.get? 2).isSome = true := by decide +kernel
  refine ⟨assigned, first,
    remembers.others (.object 4) "__annotations__" known (by decide +kernel) nofun,
    accesses _ (by simp [Access.assigns?]), ?_⟩
  cases stages called stage with
  | inl gone => simp [gone] at still
  | inr same => exact same

end Runtime
end Callables
