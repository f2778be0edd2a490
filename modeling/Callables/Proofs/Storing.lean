import Callables.Proofs.Orderly
import Callables.Proofs.ReadingsKept

namespace Callables

/-- The attributes that a function with metadata accepts: all that are not special, and of those
that are the ones with a field that takes the value. -/
def Function.Accepts (h : Heap) (f : Function) (m : Metadata) (name : String) (value : Value) :
    Prop :=
  ∀ special, SpecialAttribute.named? name = some special →
    ∃ field : MetadataField, special = field.special ∧ field.Takes h f m value

theorem Function.withMetadata_self {f : Function} {m : Metadata} (hm : f.metadata? = some m) :
    f.withMetadata m = f := by
  unfold metadata? at hm
  obtain ⟨_, _, _, _, _, kind⟩ := f
  cases kind <;> simp_all [withMetadata, FunctionKind.withMetadata, FunctionKind.metadata?]

namespace Heap

variable {h : Heap} {r : Ref}

theorem entriesAt_of_plain {o : Object} (found : h.get? r = some o) (plain : o.dict? = none) :
    h.entriesAt (some r) = .empty := by
  simp [entriesAt, dict?, object?, found, plain]

theorem entriesAt_of_dict {entries : Dict Value} (found : h.get? r = some (.dict entries)) :
    h.entriesAt (some r) = entries := by
  simp [entriesAt, dict?, object?, found, Object.dict?]

theorem entriesAt_congr {h' : Heap} (same : h'.get? r = h.get? r) :
    h'.entriesAt (some r) = h.entriesAt (some r) := by
  simp [entriesAt, dict?, object?, same]

/-- Where a function is there are no entries, whatever function it is. -/
theorem entriesAt_of_function {h' : Heap} {f g : Function} (here : h.get? r = some (.function f))
    (here' : h'.get? r = some (.function g)) {place : Option Ref}
    (others : ∀ p, place = some p → p ≠ r → h'.get? p = h.get? p) :
    h'.entriesAt place = h.entriesAt place := by
  cases place with
  | none => rfl
  | some p =>
    by_cases hr : p = r
    · subst hr
      rw [entriesAt_of_plain here' rfl, entriesAt_of_plain here rfl]
    · exact entriesAt_congr (others p rfl hr)

end Heap

namespace Runtime

def giving (rt : Runtime) (r : Ref) (f : Function) (m : Metadata) : Runtime :=
  ((Activity.allocate (.dict .empty)).run rt).2.storing r (.function f)
    (.function (f.withMetadata m))

variable {rt : Runtime} {r : Ref} {f : Function}

theorem ne_nextRef {o : Object} (here : rt.heap.get? r = some o) : r ≠ rt.heap.nextRef :=
  Nat.ne_of_lt (Heap.lt_size_of_get? here)

theorem get?_giving_self (here : rt.heap.get? r = some (.function f)) (m : Metadata) :
    (rt.giving r f m).heap.get? r = some (.function (f.withMetadata m)) :=
  Heap.get?_set_self _ (Heap.lt_size_of_get? (Heap.get?_push_of_some _ here))

theorem get?_giving_dict (here : rt.heap.get? r = some (.function f)) (m : Metadata) :
    (rt.giving r f m).heap.get? rt.heap.nextRef = some (.dict .empty) :=
  (Heap.get?_set_of_ne _ _ (ne_nextRef here).symm).trans ((Heap.get?_push ..).trans (if_pos rfl))

theorem get?_giving_of_ne (m : Metadata) {place : Ref} (other : place ≠ r)
    (old : place ≠ rt.heap.nextRef) :
    (rt.giving r f m).heap.get? place = rt.heap.get? place :=
  (Heap.get?_set_of_ne _ _ other).trans ((Heap.get?_push ..).trans (if_neg old))

theorem builds_giving (here : rt.heap.get? r = some (.function f)) (m : Metadata) :
    rt.heap.Builds (rt.giving r f m).heap :=
  (Heap.Builds.push rfl (Object.formed_plain rfl (by simp))).trans
    (.set (Heap.get?_push_of_some _ here) (Object.core_metadata ..))

end Runtime

namespace Activity

variable {rt : Runtime} {r : Ref} {f : Function} {m : Metadata} {name : String} {value : Value}

/-- An entry has been set in the attribute dict of a function, which is new if there was none. -/
structure EntrySet (rt : Runtime) (r : Ref) (f : Function) (m : Metadata) (name : String)
    (value : Value) (dict : Ref) (m' : Metadata) (rt' : Runtime) : Prop where
  leaves : rt.Leaves r rt'
  here : rt'.heap.get? r = some (.function (f.withMetadata m'))
  same : m.SameBut .attributes m'
  attributes : m'.attributes = some dict
  kept : ∀ d, m.attributes = some d → dict = d
  fresh : m.attributes = none → rt.heap.get? dict = none
  entries : rt'.heap.get? dict =
    some (.dict ((rt.heap.entriesAt m.attributes).set name value))
  elsewhere : ∀ place, place ≠ some dict → rt'.heap.entriesAt place = rt.heap.entriesAt place

/-- A dict that was there is the one that the function had. -/
theorem EntrySet.attributes_of_some {dict : Ref} {m' : Metadata} {rt' : Runtime}
    (set : EntrySet rt r f m name value dict m' rt') {o : Object}
    (there : rt.heap.get? dict = some o) : m.attributes = some dict := by
  cases attributes : m.attributes with
  | none =>
    rw [set.fresh attributes] at there
    cases there
  | some d => rw [set.kept d attributes]

inductive Stored (rt : Runtime) (r : Ref) (f : Function) (m : Metadata) (name : String)
    (value : Value) : Except CallError Unit × Runtime → Prop
  | refused (cause : CallError) (unfit : ¬ f.Accepts rt.heap m name value) :
      Stored rt r f m name value (.error cause, rt)
  | field {field : MetadataField} {m' : Metadata}
      (named : SpecialAttribute.named? name = some field.special)
      (takes : field.Takes rt.heap f m value) (set : m.set? rt.heap field value = some m')
      (held : (m'.at? field).getD .none = value) :
      Stored rt r f m name value
        (.ok (), rt.storing r (.function f) (.function (f.withMetadata m')))
  | entry {dict : Ref} {m' : Metadata} {rt' : Runtime}
      (ordinary : SpecialAttribute.named? name = none)
      (set : EntrySet rt r f m name value dict m' rt') :
      Stored rt r f m name value (.ok (), rt')

theorem Stored.accepts {rt' : Runtime} (stored : Stored rt r f m name value (.ok (), rt')) :
    f.Accepts rt.heap m name value := by
  intro special named
  cases stored with
  | @field field m' named' takes set held =>
    obtain rfl := Option.some.inj (named.symm.trans named')
    exact ⟨field, rfl, takes⟩
  | entry ordinary set => cases ordinary.symm.trans named

/-- A function without metadata refuses all assignments. -/
theorem run_setFunctionAttribute_bare (rt : Runtime) (r : Ref) (hm : f.metadata? = none)
    (name : String) (value : Value) :
    ∃ cause, (setFunctionAttribute r f name value).run rt = (.error cause, rt) := by
  unfold setFunctionAttribute
  rw [run_get]
  dsimp only
  split
  · exact ⟨_, rfl⟩
  · rw [hm]
    cases SpecialAttribute.named? name with
    | none => exact ⟨_, rfl⟩
    | some special => cases special <;> exact ⟨_, rfl⟩

theorem entrySet_of_some (here : rt.heap.get? r = some (.function f)) (hm : f.metadata? = some m)
    {dict : Ref} (attributes : m.attributes = some dict) {entries : Dict Value}
    (found : rt.heap.get? dict = some (.dict entries)) :
    EntrySet rt r f m name value dict m
      (rt.storing dict (.dict entries) (.dict (entries.set name value))) := by
  have apart : r ≠ dict := by
    rintro rfl
    cases here.symm.trans found
  have others {place : Ref} (hp : place ≠ dict) :
      (rt.heap.set dict (.dict (entries.set name value))).get? place = rt.heap.get? place :=
    Heap.get?_set_of_ne _ _ hp
  constructor
  case leaves =>
    refine ⟨rfl, rfl, .set found rfl, fun ho _ plain => (others ?_).trans ho⟩
    rintro rfl
    obtain rfl := Option.some.inj (found.symm.trans ho)
    cases plain
  case here =>
    rw [Function.withMetadata_self hm]
    exact (others apart).trans here
  case same => exact ⟨fun _ _ => rfl, rfl, rfl⟩
  case attributes => exact attributes
  case kept => exact fun d hd => Option.some.inj (attributes.symm.trans hd)
  case fresh =>
    intro none
    cases attributes.symm.trans none
  case entries =>
    rw [attributes, Heap.entriesAt_of_dict found]
    exact Heap.get?_set_self _ (Heap.lt_size_of_get? found)
  case elsewhere =>
    intro place hp
    cases place with
    | none => rfl
    | some p => exact Heap.entriesAt_congr (others fun same => hp (congrArg some same))

/-- A new dict is made for a field of the metadata of a function. -/
theorem run_dictFor_none (here : rt.heap.get? r = some (.function f)) (hm : f.metadata? = some m)
    (set : Ref → Metadata → Metadata) :
    (dictFor r none set).run rt =
      (.ok rt.heap.nextRef, rt.giving r f (set rt.heap.nextRef m)) := by
  have there : ((allocate (.dict .empty)).run rt).2.heap.get? r = some (.function f) :=
    Heap.get?_push_of_some _ here
  change (modifyMetadata r (set rt.heap.nextRef) >>= fun _ => pure rt.heap.nextRef).run
    ((allocate (.dict .empty)).run rt).2 = _
  rw [run_bind, run_modifyMetadata there hm]
  rfl

/-- A function without an attribute dict gets one with a single entry. -/
theorem entrySet_of_none (here : rt.heap.get? r = some (.function f)) (hm : f.metadata? = some m)
    (attributes : m.attributes = none) (name : String) (value : Value) :
    ∃ dict m' rt', (attributeDict r m >>= fun dict => setInDict dict name value).run rt =
      (.ok (), rt') ∧ EntrySet rt r f m name value dict m' rt' := by
  -- first the function gets an empty dict, then the dict its entry
  let m' : Metadata := { m with attributes := some rt.heap.nextRef }
  let given : Runtime := rt.giving r f m'
  have dict : given.heap.get? rt.heap.nextRef = some (.dict .empty) :=
    Runtime.get?_giving_dict here m'
  let rt' : Runtime := given.storing rt.heap.nextRef (.dict .empty)
    (.dict (Dict.empty.set name value))
  have run : (attributeDict r m >>= fun dict => setInDict dict name value).run rt =
      (.ok (), rt') := by
    unfold attributeDict
    rw [attributes, run_bind, run_dictFor_none here hm]
    exact run_setInDict dict name value
  have self : rt'.heap.get? r = some (.function (f.withMetadata m')) :=
    (Heap.get?_set_of_ne _ _ (Runtime.ne_nextRef here)).trans (Runtime.get?_giving_self here m')
  have others {place : Ref} (hp : place ≠ rt.heap.nextRef) (hr : place ≠ r) :
      rt'.heap.get? place = rt.heap.get? place :=
    (Heap.get?_set_of_ne _ _ hp).trans (Runtime.get?_giving_of_ne m' hr hp)
  refine ⟨rt.heap.nextRef, m', rt', run, ?_⟩
  constructor
  case leaves =>
    refine ⟨rfl, rfl, (Runtime.builds_giving here m').trans (.set dict rfl), fun ho hr _ => ?_⟩
    exact (others (Runtime.ne_nextRef ho) hr).trans ho
  case here => exact self
  case same =>
    refine ⟨fun field other => ?_, rfl, rfl⟩
    cases field <;> first | rfl | exact absurd rfl other
  case attributes => rfl
  case kept =>
    intro d hd
    cases attributes.symm.trans hd
  case fresh => exact fun _ => rt.heap.get?_nextRef
  case entries =>
    rw [attributes]
    exact Heap.get?_set_self _ (Heap.lt_size_of_get? dict)
  case elsewhere =>
    intro place hp
    refine Heap.entriesAt_of_function here self fun p same => others ?_
    rintro rfl
    exact hp same

/-- An assignment to a function with metadata is refused, or sets a field or an entry. -/
theorem stored (here : rt.heap.get? r = some (.function f)) (hm : f.metadata? = some m)
    (sorted : m.Sorted rt.heap) (name : String) (value : Value) :
    Stored rt r f m name value ((setFunctionAttribute r f name value).run rt) := by
  unfold setFunctionAttribute
  rw [run_get]
  dsimp only
  split
  · rename_i guarded
    obtain ⟨special, named, readOnly⟩ := (Option.any_eq_true _ _).mp guarded
    refine .refused _ fun accepts => ?_
    obtain ⟨field, rfl, -⟩ := accepts special named
    rw [field.isReadOnly_special] at readOnly
    cases readOnly
  · rw [hm]
    cases named : SpecialAttribute.named? name with
    | none =>
      cases attributes : m.attributes with
      | none =>
        obtain ⟨dict, m', rt', run, set⟩ := entrySet_of_none here hm attributes name value
        dsimp only
        rw [run]
        exact .entry named set
      | some dict =>
        obtain ⟨entries, found⟩ := sorted.attributes dict attributes
        have run : (attributeDict r m >>= fun dict => setInDict dict name value).run rt =
            (.ok (), rt.storing dict (.dict entries) (.dict (entries.set name value))) := by
          unfold attributeDict
          rw [attributes]
          exact run_setInDict found name value
        dsimp only
        rw [run]
        exact .entry named (entrySet_of_some here hm attributes found)
    | some special =>
      dsimp only
      rw [run_setSpecialAttribute here hm, Runtime.specialAssignment]
      cases assigned : f.assign rt.heap m special name value with
      | error cause =>
        refine .refused cause fun accepts => ?_
        obtain ⟨field, names, takes⟩ := accepts special named
        exact Function.assign_error assigned field names takes
      | ok m' =>
        obtain ⟨field, names, takes, set, held⟩ := Function.assign_ok assigned
        have run : (store r (.function (f.withMetadata m'))).run rt = _ := run_store here _
        dsimp only [Assignment.run]
        rw [run]
        exact .field (named.trans (congrArg some names)) takes set held

end Activity
end Callables
