import Callables.Proofs.Change
import Callables.Proofs.Sweep

namespace Callables.Runtime

/-- A change by an activity, a new type while there are numbers left, or a release of what neither
the types nor anything else refers to. -/
inductive Step (rt : Runtime) : Runtime → Prop
  | change {rt'} (change : rt.Change rt') : Step rt rt'
  | create {rt'} (name : String) {bases : List TypeId} {id : TypeId}
      (known : ∀ b ∈ bases, rt.types.contains b = true)
      (room : rt.types.created < Types.idLimit) (config : rt'.config = rt.config)
      (types : rt.types.create name bases = .ok (id, rt'.types)) (heap : rt'.heap = rt.heap) :
      Step rt rt'
  | release {rt'} (roots : List Value)
      (rooted : ∀ {id t}, rt.types.get? id = some t → ∀ v ∈ t.attributes.values, v ∈ roots)
      (config : rt'.config = rt.config) (types : rt'.types = rt.types)
      (heap : rt'.heap = (rt.heap.sweep roots).heap) : Step rt rt'

abbrev Reaches : Runtime → Runtime → Prop := Relation.ReflTransGen Step

theorem Changes.reaches {rt rt' : Runtime} (changes : Changes rt rt') : rt.Reaches rt' := by
  induction changes with
  | refl => exact .refl
  | tail _ change ih => exact ih.tail (.change change)

section Release

variable {rt rt' : Runtime} {roots : List Value}

/-- What roots or objects refer to is known after a release, and of the type it was. -/
theorem knows_release (types : rt'.types = rt.types)
    (heap : rt'.heap = (rt.heap.sweep roots).heap) {v : Value} (hv : rt.Knows v)
    (used : v ∈ roots ∨ ∃ place o, rt'.heap.get? place = some o ∧ v ∈ o.references) :
    rt'.Knows v ∧ rt'.typeIdOf v = rt.typeIdOf v := by
  cases v with
  | type id => exact ⟨by rw [Knows, types]; exact hv, rfl⟩
  | object r =>
    obtain ⟨o, ho⟩ := hv
    have hs : rt'.heap.get? r = some o := heap ▸ Heap.get?_sweep ho (heap ▸ used)
    exact ⟨⟨o, hs⟩, by simp [Runtime.typeIdOf, ho, hs]⟩
  | none | bool | int | float | text => exact ⟨trivial, rfl⟩

/-- What is there after a release was there before, and so is all that it refers to. -/
theorem Sound.release (sound : rt.Sound)
    (rooted : ∀ {id t}, rt.types.get? id = some t → ∀ v ∈ t.attributes.values, v ∈ roots)
    (types : rt'.types = rt.types) (heap : rt'.heap = (rt.heap.sweep roots).heap) :
    rt'.Sound := by
  refine ⟨types ▸ sound.lawful, types ▸ sound.numbered, types ▸ sound.builtin, ?_, ?_⟩
  · intro r o ho
    have hs := sound.live ((rt.heap.sweep_fair roots).kept (heap ▸ ho))
    refine ⟨?_, ?_, ?_⟩
    · intro v hv
      exact (knows_release types heap (hs.references v hv) (.inr ⟨r, o, ho, hv⟩)).1
    · rw [types]
      exact hs.classes
    · rintro f rfl
      refine ⟨?_, (hs.fits f rfl).host⟩
      intro owner receiver hf hr
      have hm : receiver ∈ (Object.function f).references := by
        simp [Object.references, Function.commonReferences, hr]
      have hi := (knows_release types heap (hs.references receiver hm) (.inr ⟨r, _, ho, hm⟩)).2
      have := (hs.fits f rfl).conforms hf hr
      unfold Runtime.conforms Runtime.isInstance Runtime.typeOf at this ⊢
      rw [hi, types]
      exact this
  · intro id t ht v hv
    rw [types] at ht
    exact (knows_release types heap (sound.attributes ht v hv) (.inl (rooted ht v hv))).1

end Release

theorem Sound.grows_create {rt rt' : Runtime} (sound : rt.Sound) {name : String}
    {bases : List TypeId} {id : TypeId} (room : rt.types.created < Types.idLimit)
    (types : rt.types.create name bases = .ok (id, rt'.types)) (heap : rt'.heap = rt.heap) :
    rt.Grows rt' :=
  ⟨Types.grows_create types (sound.numbered.fresh room),
    fun {_ o} ho => ⟨o, heap ▸ ho, .same o⟩⟩

theorem Sound.create {rt rt' : Runtime} (sound : rt.Sound) {name : String} {bases : List TypeId}
    {id : TypeId} (known : ∀ b ∈ bases, rt.types.contains b = true)
    (room : rt.types.created < Types.idLimit)
    (types : rt.types.create name bases = .ok (id, rt'.types)) (heap : rt'.heap = rt.heap) :
    rt'.Sound := by
  refine sound.grow (sound.grows_create room types heap)
    (Types.lawful_create sound.lawful known (sound.numbered.fresh room) types)
    (sound.numbered.create room types).1 ?_ ?_
  · intro r o ho
    exact sound.live (heap ▸ ho)
  · intro other t ht
    obtain ⟨_, _, _, _, _, he⟩ := Types.create_cases types
    rw [he, Types.get?_create] at ht
    split at ht
    · obtain rfl := Option.some.inj ht
      simp [KnowsAll, Dict.values, Dict.empty]
    · exact sound.attributes ht

theorem Sound.step {rt rt' : Runtime} (sound : rt.Sound) (step : rt.Step rt') : rt'.Sound := by
  cases step with
  | change change => exact sound.change change
  | create name known room _ types heap => exact sound.create known room types heap
  | release roots rooted _ types heap => exact sound.release rooted types heap

theorem Sound.reaches {rt rt' : Runtime} (sound : rt.Sound) (reaches : rt.Reaches rt') :
    rt'.Sound := by
  induction reaches with
  | refl => exact sound
  | tail _ step ih => exact ih.step step

/-- What stays true from now on: types evolve, and an object at an old place is what has become of
the one that was there. -/
structure Persists (rt rt' : Runtime) : Prop where
  types : rt.types.Grows rt'.types
  size : rt.heap.size ≤ rt'.heap.size
  heap : ∀ {r o'}, r < rt.heap.size → rt'.heap.get? r = some o' →
    ∃ o, rt.heap.get? r = some o ∧ o.Becomes o'

theorem Persists.refl (rt : Runtime) : rt.Persists rt :=
  ⟨.refl _, Nat.le_refl _, fun {_ o'} _ ho => ⟨o', ho, .same o'⟩⟩

theorem Persists.trans {a b c : Runtime} (h : a.Persists b) (h' : b.Persists c) : a.Persists c := by
  refine ⟨h.types.trans h'.types, Nat.le_trans h.size h'.size, ?_⟩
  intro r o'' hr ho''
  obtain ⟨o', ho', hb'⟩ := h'.heap (Nat.lt_of_lt_of_le hr h.size) ho''
  obtain ⟨o, ho, hb⟩ := h.heap hr ho'
  exact ⟨o, ho, hb.trans hb'⟩

/-- A function that is still there is a later record of the same callable. -/
theorem Persists.function {rt rt' : Runtime} (h : rt.Persists rt') {v : Value} {f : Function}
    (hf : rt.heap.function? v = some f) (live : rt'.Knows v) :
    ∃ g, rt'.heap.function? v = some g ∧ f.Alike g := by
  obtain ⟨r, rfl, ho⟩ := Heap.get?_of_function? hf
  obtain ⟨o', ho'⟩ := live
  obtain ⟨o, ho'', becomes⟩ := h.heap (Heap.lt_size_of_get? ho) ho'
  obtain rfl := Option.some.inj (ho.symm.trans ho'')
  obtain ⟨g, rfl, alike⟩ := becomes.of_function
  exact ⟨g, Heap.function?_of_get? ho', alike⟩

theorem Change.persists {rt rt' : Runtime} (change : rt.Change rt') : rt.Persists rt' := by
  refine ⟨change.grows.types, ?_, ?_⟩
  · cases change with
    | allocate o _ _ _ heap => simp [heap, Heap.size, Heap.push]
    | replace r _ new _ _ _ _ _ heap => simp [heap, Heap.size, Heap.set]
    | quiet _ _ heap | setAttribute _ _ _ _ _ heap | eraseAttribute _ _ _ _ heap
    | addFlags _ _ _ _ heap => exact Nat.le_of_eq (heap ▸ rfl)
  · intro r o' hr ho'
    cases hg : rt.heap.get? r with
    | some o =>
      obtain ⟨o'', ho'', hb⟩ := change.grows.heap hg
      exact ⟨o, rfl, Option.some.inj (ho''.symm.trans ho') ▸ hb⟩
    | none =>
      -- an empty place below the end of the heap stays empty
      exfalso
      cases change with
      | allocate o _ _ _ heap =>
        have hn : r ≠ rt.heap.nextRef := Nat.ne_of_lt hr
        rw [heap, Heap.get?_push, if_neg hn] at ho'
        simp [hg] at ho'
      | replace place old new found _ _ _ _ heap =>
        by_cases he : r = place
        · simp [← he, hg] at found
        · rw [heap, Heap.get?_set_of_ne _ new he] at ho'
          simp [hg] at ho'
      | quiet _ _ heap | setAttribute _ _ _ _ _ heap | eraseAttribute _ _ _ _ heap
      | addFlags _ _ _ _ heap =>
        rw [heap] at ho'
        simp [hg] at ho'

theorem Sound.persists_step {rt rt' : Runtime} (sound : rt.Sound) (step : rt.Step rt') :
    rt.Persists rt' := by
  cases step with
  | change change => exact change.persists
  | create name _ room _ types heap =>
    refine ⟨(sound.grows_create room types heap).types, heap ▸ Nat.le_refl _, ?_⟩
    intro r o' _ ho'
    exact ⟨o', heap ▸ ho', .same o'⟩
  | release roots _ _ types heap =>
    have fair := rt.heap.sweep_fair roots
    refine ⟨types ▸ .refl _, heap ▸ Nat.le_of_eq fair.size.symm, ?_⟩
    intro r o' _ ho'
    exact ⟨o', fair.kept (heap ▸ ho'), .same o'⟩

theorem Sound.persists {rt rt' : Runtime} (sound : rt.Sound) (reaches : rt.Reaches rt') :
    rt.Persists rt' := by
  induction reaches with
  | refl => exact .refl rt
  | tail before step ih => exact ih.trans ((sound.reaches before).persists_step step)

end Callables.Runtime
