import Callables.Proofs.Access
import Callables.Proofs.Elsewhere

namespace Callables

namespace Runtime

variable {rt : Runtime}

def IsHolder (rt : Runtime) (x : Value) : Prop :=
  (∃ type attributes, rt.heap.object? x = some (.ofClass type attributes)) ∨
    ∃ name names, rt.heap.object? x = some (.module name names)

theorem baseFunction?_of_object {x : Value} {o : Object} (found : rt.heap.object? x = some o)
    (plain : o.function? = none) : rt.baseFunction? x = none := by
  simp [baseFunction?, Heap.function?, found, plain]

theorem attributePlace?_of_object {r : Ref} {o : Object} (found : rt.heap.get? r = some o)
    (plain : o.function? = none) : rt.attributePlace? (.object r) = o.attributePlace? r := by
  have direct : rt.heap.innermost (.object r) = .object r :=
    innermost_of_direct (by simp [Heap.function?, Heap.object?, found, plain])
  simp [attributePlace?, direct, directPlace?, found]

/-- The entries of a dictionary are exchanged for others. -/
theorem sameBut_set {rt' : Runtime} {place : Ref} {o o' : Object}
    (found : rt.heap.get? place = some o) (same : o'.core = o.core) (plain : o.function? = none)
    (types : rt'.types = rt.types) (text : rt'.nextText = rt.nextText)
    (heap : rt'.heap = rt.heap.set place o') : rt.SameBut place rt' := by
  refine ⟨types, text, by simp [heap, Heap.size, Heap.set], fun hr => ?_, o, o', found, ?_, same,
    plain⟩
  · rw [heap, Heap.get?_set_of_ne _ _ hr]
  · rw [heap, Heap.get?_set_self _ (Heap.lt_size_of_get? found)]

theorem set_on_object {r : Ref} {type : TypeId} {attributes : Dict Value}
    (found : rt.heap.get? r = some (.ofClass type attributes)) (name : String) (v : Value) :
    ∃ rt', (Activity.setAttribute (.object r) name v).run rt = (.ok (), rt') ∧
      rt.SameBut r rt' ∧ (Activity.getAttribute (.object r) name).run rt' = (.ok v, rt') := by
  have none : rt.baseFunction? (.object r) = none := baseFunction?_of_object found rfl
  let o' : Object := .ofClass type (attributes.set name v)
  let rt' : Runtime := { rt with
    heap := rt.heap.set r o'
    ledger := rt.ledger.push (.change (.ofClass type attributes) o') }
  have run : (Activity.setAttribute (.object r) name v).run rt = (.ok (), rt') := by
    unfold Activity.setAttribute Activity.store
    rw [Activity.run_get, none]
    dsimp only
    rw [found]
    dsimp only
    rw [Activity.run_get, found]
    rfl
  have core : o'.core = (Object.ofClass type attributes).core := rfl
  have same : rt.SameBut r rt' := sameBut_set found core rfl rfl rfl rfl
  have here : rt'.heap.get? r = some o' := Heap.get?_set_self _ (Heap.lt_size_of_get? found)
  have ordinary : rt'.Ordinary (.object r) :=
    ⟨baseFunction?_of_object here rfl, by simp [moduleNames?, Heap.object?, here, o'],
      fun _ h => by cases h⟩
  refine ⟨rt', run, same, ?_⟩
  rw [ordinary.run_getAttribute]
  simp [ownAttributes?, Heap.object?, here, o', Dict.get?_set_self]

theorem run_getAttribute_module {x : Value} {names : Ref} {name : String} {v : Value}
    (plain : rt.baseFunction? x = none) (module : rt.moduleNames? x = some names)
    (found : (rt.heap.entriesAt (some names)).get? name = some v) :
    (Activity.getAttribute x name).run rt = (.ok v, rt) := by
  have object : (Activity.getObjectAttribute x name).run rt = (.ok v, rt) := by
    unfold Activity.getObjectAttribute
    rw [Activity.run_get, module]
    dsimp only
    rw [found]
    rfl
  unfold Activity.getAttribute Activity.getDirectAttribute
  rw [Activity.run_get, plain]
  dsimp only
  rw [Activity.run_get, plain]
  cases x <;> exact object

theorem set_on_module {r names : Ref} {text : Text} {entries : Dict Value}
    (found : rt.heap.get? r = some (.module text names))
    (dict : rt.heap.get? names = some (.dict entries)) (name : String) (v : Value) :
    ∃ rt', (Activity.setAttribute (.object r) name v).run rt = (.ok (), rt') ∧
      rt.SameBut names rt' ∧ (Activity.getAttribute (.object r) name).run rt' = (.ok v, rt') := by
  have none : rt.baseFunction? (.object r) = none := baseFunction?_of_object found rfl
  let o' : Object := .dict (entries.set name v)
  let rt' : Runtime := { rt with
    heap := rt.heap.set names o'
    ledger := rt.ledger.push (.change (.dict entries) o') }
  have run : (Activity.setAttribute (.object r) name v).run rt = (.ok (), rt') := by
    unfold Activity.setAttribute Activity.setInDict Activity.store
    rw [Activity.run_get, none]
    dsimp only
    rw [found]
    dsimp only
    rw [Activity.run_get, dict]
    dsimp only
    rw [Activity.run_get, dict]
    rfl
  have core : o'.core = (Object.dict entries).core := rfl
  have same : rt.SameBut names rt' := sameBut_set dict core rfl rfl rfl rfl
  have other : r ≠ names := by
    rintro rfl
    simp [found] at dict
  have here : rt'.heap.get? r = some (.module text names) :=
    (Heap.get?_set_of_ne _ _ other).trans found
  have there : rt'.heap.get? names = some o' := Heap.get?_set_self _ (Heap.lt_size_of_get? dict)
  have module : rt'.moduleNames? (.object r) = some names := by
    simp [moduleNames?, Heap.object?, here]
  refine ⟨rt', run, same,
    run_getAttribute_module (baseFunction?_of_object here rfl) module ?_⟩
  simp [Heap.entriesAt, Heap.dict?, Heap.object?, there, o', Object.dict?, Dict.get?_set_self]

theorem run_setAttribute_type {id : TypeId} (changeable : rt.types.hasFlag id .heapType = true)
    (name : String) (v : Value) :
    ∃ rt', (Activity.setAttribute (.type id) name v).run rt = (.ok (), rt') ∧
      rt'.types = rt.types.modifyAttributes id (·.set name v) := by
  refine ⟨((Activity.setTypeAttribute id name v).run rt).2, ?_, rfl⟩
  unfold Activity.setAttribute
  rw [Activity.run_get]
  dsimp only
  rw [if_pos changeable]
  rfl

theorem run_eraseTypeAttribute (rt : Runtime) (id : TypeId) (name : String) :
    ∃ rt', (Activity.eraseTypeAttribute id name).run rt = (.ok (rt.types.own id name), rt') ∧
      rt'.types = rt.types.modifyAttributes id (·.erase name) :=
  ⟨_, rfl, rfl⟩

/-- What updates change, and what they leave. -/
structure Updates (rt : Runtime) : Prop where
  /-- What is set on a class is found by the subtypes on which nothing hides it. -/
  set : ∀ owner name v, rt.types.hasFlag owner .heapType = true →
    ∃ rt', (Activity.setAttribute (.type owner) name v).run rt = (.ok (), rt') ∧
      ∀ id m, rt.types.contains id = true →
        (m = name ∧ rt.types.Sees id owner name → rt'.types.lookup id m = some v) ∧
        (¬ (m = name ∧ rt.types.Sees id owner name) →
          rt'.types.lookup id m = rt.types.lookup id m)
  /-- Where a lookup resolved to what is deleted, it goes on to the next type that has the name. -/
  erase : ∀ owner name,
    ∃ rt', (Activity.eraseTypeAttribute owner name).run rt =
        (.ok (rt.types.own owner name), rt') ∧
      ∀ id m, rt.types.contains id = true →
        (m = name ∧ rt.types.definer? id name = some owner →
          rt'.types.lookup id m = (rt.types.after id owner).findSome? (rt.types.own · name)) ∧
        (¬ (m = name ∧ rt.types.definer? id name = some owner) →
          rt'.types.lookup id m = rt.types.lookup id m)
  /-- A lookup answers what the type has to which it resolves. -/
  resolved : ∀ id name,
    rt.types.lookup id name = (rt.types.definer? id name).bind (rt.types.own · name)
  /-- A type that has a name itself hides what its proper supertypes have under that name. -/
  hidden : ∀ id a d name, rt.types.contains id = true → (rt.types.own d name).isSome = true →
    d ≠ a → (d = id ∨ d ∈ (rt.types.info id).ancestors ∧ rt.types.isSubtype d a = true) →
    rt.types.definer? id name ≠ some a
  /-- What is set on an object or a module is read as it is, and whoever does not share the
  dictionary notices nothing. -/
  own : ∀ x name v, rt.IsHolder x →
    ∃ place rt', rt.attributePlace? x = some place ∧
      (Activity.setAttribute x name v).run rt = (.ok (), rt') ∧
      (Activity.getAttribute x name).run rt' = (.ok v, rt') ∧
      ∀ u m, rt.attributePlace? u ≠ some place →
        Activity.Abreast place rt rt' (Activity.getAttribute u m) (Activity.getAttribute u m)

/-- Updates reach exactly the right objects. -/
theorem Arises.updates (h : rt.Arises) : rt.Updates := by
  have lawful := h.sound.lawful
  constructor
  case set =>
    intro owner name v changeable
    obtain ⟨rt', run, types⟩ := run_setAttribute_type changeable name v
    refine ⟨rt', run, fun id m here => ?_⟩
    obtain ⟨others, seen, unseen⟩ := lawful.lookup_modifyAttributes here
      (fun d m (other : m ≠ name) => Dict.get?_set_of_ne d v other) owner
    rw [types]
    constructor
    · rintro ⟨rfl, sees⟩
      rw [seen sees, Dict.get?_set_self]
      rfl
    · intro not
      by_cases hm : m = name
      · subst hm
        exact unseen fun sees => not ⟨rfl, sees⟩
      · exact others m hm
  case erase =>
    intro owner name
    obtain ⟨rt', run, types⟩ := run_eraseTypeAttribute rt owner name
    refine ⟨rt', run, fun id m here => ?_⟩
    obtain ⟨others, seen, unseen⟩ := lawful.lookup_modifyAttributes here
      (fun d m (other : m ≠ name) => Dict.get?_erase_of_ne d other) owner
    rw [types]
    constructor
    · rintro ⟨rfl, resolves⟩
      rw [seen ((lawful.definer?_eq_some_iff here).mp resolves).1, Dict.get?_erase_self]
      rfl
    · intro not
      by_cases hm : m = name
      · subst hm
        by_cases sees : rt.types.Sees id owner m
        · -- there was nothing to delete
          have none : rt.types.own owner m = none := by
            rw [← Option.not_isSome_iff_eq_none]
            exact fun has => not ⟨rfl, (lawful.definer?_eq_some_iff here).mpr ⟨sees, has⟩⟩
          rw [seen sees, Dict.get?_erase_self, lawful.lookup_of_sees here sees, none]
        · exact unseen sees
      · exact others m hm
  case resolved => exact rt.types.lookup_eq_definer
  case hidden => exact fun id a d name known => lawful.hidden known
  case own =>
    intro x name v holder
    have stays (place : Ref) (rt' : Runtime) (same : rt.SameBut place rt') (u : Value)
        (m : String) (other : rt.attributePlace? u ≠ some place) :
        Activity.Abreast place rt rt' (Activity.getAttribute u m) (Activity.getAttribute u m) :=
      Activity.abreast_getAttribute h.sound same other m
    cases x with
    | object r =>
      rcases holder with ⟨type, attributes, found⟩ | ⟨text, names, found⟩
      · obtain ⟨rt', run, same, read⟩ := set_on_object found name v
        exact ⟨r, rt', attributePlace?_of_object found rfl, run, read, stays r rt' same⟩
      · obtain ⟨entries, dict⟩ := (h.formed r _ found).dict text names rfl
        obtain ⟨rt', run, same, read⟩ := set_on_module found dict name v
        exact ⟨names, rt', attributePlace?_of_object found rfl, run, read, stays names rt' same⟩
    | none | bool | int | float | text | type =>
      rcases holder with ⟨_, _, found⟩ | ⟨_, _, found⟩ <;> cases found

/-- In the diamond, what is set on one of the two middle types is found from the type below both. -/
theorem updates_diamond :
    ∃ rt', (Activity.setAttribute (.type ⟨258⟩) "n" (.int 1)).run diamond.runtime =
        (.ok (), rt') ∧ rt'.types.lookup ⟨259⟩ "n" = some (.int 1) := by
  have reachable : diamond.Reachable := (Session.Reachable.start _ _).run (by decide +kernel)
  obtain ⟨rt', run, found⟩ := (Arises.updates (.of_session reachable)).set ⟨258⟩ "n" (.int 1)
    (by decide +kernel)
  have sees : diamond.runtime.types.Sees ⟨259⟩ ⟨258⟩ "n" := by decide +kernel
  exact ⟨rt', run, (found ⟨259⟩ "n" (by decide +kernel)).1 ⟨rfl, sees⟩⟩

end Runtime
end Callables
