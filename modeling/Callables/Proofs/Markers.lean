import Callables.Proofs.Receivers

namespace Callables

namespace TypeFlags

theorem has_of_bit {flag : TypeFlags} {i : Nat}
    (single : flag.bits.toBitVec = BitVec.twoPow 32 i) (inside : i < 32) (flags : TypeFlags) :
    flags.has flag = flags.bits.toBitVec.getLsbD i := by
  have set : BitVec.twoPow 32 i ≠ 0#32 := fun none => by
    have bit := congrArg (·.getLsbD i) none
    simp [inside] at bit
  rw [Bool.eq_iff_iff, has, bitsIn, beq_iff_eq, ← UInt32.toBitVec_inj, UInt32.toBitVec_and, single,
    BitVec.and_twoPow]
  cases flags.bits.toBitVec.getLsbD i with
  | true => simp
  | false => simpa using set.symm

theorem has_baseFunction (flags : TypeFlags) :
    flags.has .baseFunction = flags.bits.toBitVec.getLsbD 2 :=
  has_of_bit rfl (by decide) flags

@[simp] theorem has_baseFunction_join (a b : TypeFlags) :
    (a.join b).has .baseFunction = (a.has .baseFunction || b.has .baseFunction) := by
  simp only [has_baseFunction, join, UInt32.toBitVec_or, BitVec.getLsbD_or]

theorem join_comm (a b : TypeFlags) : a.join b = b.join a := by
  simp only [join, UInt32.or_comm]

theorem has_join_right (flags : TypeFlags) {more wanted : TypeFlags} (h : more.has wanted = true) :
    (flags.join more).has wanted = true :=
  join_comm more flags ▸ Types.has_join more flags h

@[simp] theorem has_baseFunction_inherited (flags : TypeFlags) :
    (flags.meet .inherited).has .baseFunction = false := by
  have unmarked : TypeFlags.inherited.bits.toBitVec.getLsbD 2 = false := by decide
  simp only [has_baseFunction, meet, UInt32.toBitVec_and, BitVec.getLsbD_and, unmarked,
    Bool.and_false]

end TypeFlags

namespace Types

variable {types types' : Types}

theorem has_baseFunction_newFlags (types : Types) (bases : List TypeId) :
    (types.newFlags bases).has .baseFunction = false := by
  have passed (flags : TypeFlags) (plain : flags.has .baseFunction = false) :
      (bases.foldl (fun flags b => flags.join ((types.info b).flags.meet .inherited)) flags).has
        .baseFunction = false := by
    induction bases generalizing flags with
    | nil => exact plain
    | cons b rest ih => exact ih _ (by simp [plain])
  have new : (TypeFlags.heapType.join .baseType).has .baseFunction = false := by decide
  unfold newFlags
  rw [TypeFlags.has_baseFunction_join, new, passed _ (by decide)]
  rfl

theorem has_heapType_newFlags (types : Types) (bases : List TypeId) :
    (types.newFlags bases).has .heapType = true := by
  have new : (TypeFlags.heapType.join .baseType).has .heapType = true := by decide
  exact has_join _ _ new

/-- Types made at run time are changeable, and none of them promises the layout of functions. -/
def Unmarked (types : Types) : Prop :=
  ∀ {id t}, types.get? id = some t → id.isBuiltin = false →
    t.flags.has .heapType = true ∧ t.flags.has .baseFunction = false

theorem initial_unmarked : initial.Unmarked := by
  have builtin : ∀ e ∈ initial.entries, e.1.isBuiltin = true := by decide
  intro id t ht made
  rw [builtin _ (Registry.mem_of_get? ht)] at made
  cases made

theorem Unmarked.modifyAttributes (h : types.Unmarked) (id : TypeId)
    (f : Dict Value → Dict Value) : Unmarked (types.modifyAttributes id f) := by
  intro other t ht made
  obtain ⟨t', ht', rfl | rfl⟩ := get?_modifyAttributes ht
  · exact h ht' made
  · have plain := h ht' made
    exact plain

/-- Flags are refused to a changeable type if the mark is among them. -/
theorem Unmarked.addFlags (h : types.Unmarked) {id : TypeId} {flags : TypeFlags}
    (added : types.addFlags id flags = .ok types') : types'.Unmarked := by
  intro other t ht made
  have same := addFlags_eq added
  rw [same, Registry.get?_modify] at ht
  split at ht
  · rename_i here
    subst here
    obtain ⟨t', ht', rfl⟩ := Option.map_eq_some_iff.mp ht
    obtain ⟨changeable, plain⟩ := h ht' made
    -- the type is changeable, so flags with the mark among them would have been refused
    have unasked : flags.has .baseFunction = false := by
      unfold Types.addFlags at added
      rw [hasFlag, info_of_get? ht', changeable] at added
      cases asked : flags.has .baseFunction with
      | false => rfl
      | true => simp [asked] at added
    exact ⟨has_join _ _ changeable, by simp [plain, unasked]⟩
  · exact h ht made

theorem Unmarked.create (h : types.Unmarked) {name : String} {bases : List TypeId} {id : TypeId}
    (made : types.create name bases = .ok (id, types')) : types'.Unmarked := by
  obtain ⟨bases', ancestors, -, -, -, rfl⟩ := create_cases made
  intro other t ht heap
  rw [get?_create] at ht
  split at ht
  · obtain rfl := Option.some.inj ht
    exact ⟨has_heapType_newFlags types bases', has_baseFunction_newFlags types bases'⟩
  · exact h ht heap

/-- A new type gets a number that no builtin type has. -/
theorem Numbered.isBuiltin_nextId (h : types.Numbered) (room : types.created < idLimit) :
    types.nextId.isBuiltin = false := by
  have next := h.next
  unfold idLimit UInt32.size at room
  unfold UInt32.size at next
  simp only [TypeId.isBuiltin, decide_eq_false_iff_not, UInt32.lt_iff_toNat_lt]
  have first : TypeId.firstHeap.raw.toNat = 256 := rfl
  omega

theorem Unmarked.hasFlag (h : types.Unmarked) {id : TypeId} (known : types.contains id = true)
    (made : id.isBuiltin = false) : types.hasFlag id .baseFunction = false := by
  obtain ⟨t, ht⟩ := Registry.exists_get?_of_contains known
  rw [Types.hasFlag, info_of_get? ht]
  exact (h ht made).2

end Types

namespace Runtime

variable {rt rt' : Runtime}

theorem Step.unmarked (step : rt.Step rt') (h : rt.types.Unmarked) : rt'.types.Unmarked := by
  cases step with
  | change change =>
    cases change with
    | quiet _ types | allocate _ _ _ types | replace _ _ _ _ _ _ _ types => exact types ▸ h
    | setAttribute id _ _ _ types | eraseAttribute id _ _ types =>
      exact types ▸ h.modifyAttributes id _
    | addFlags _ _ _ types => exact h.addFlags types
  | create _ _ _ _ types => exact h.create types
  | release _ _ _ types => exact types ▸ h

theorem Reaches.unmarked (reaches : rt.Reaches rt') (h : rt.types.Unmarked) :
    rt'.types.Unmarked := by
  induction reaches with
  | refl => exact h
  | tail _ step ih => exact step.unmarked ih

end Runtime

theorem Session.Reachable.unmarked {s : Session} (h : s.Reachable) : s.runtime.types.Unmarked := by
  induction h with
  | start config entries => exact Types.initial_unmarked
  | step before operation room label ih =>
    exact (before.sound.step operation room label).2.unmarked ih

namespace Runtime

variable {rt rt' : Runtime}

theorem Reachable.unmarked (h : rt.Reachable) : rt.types.Unmarked := by
  obtain ⟨s, hs, reaches⟩ := h
  exact reaches.unmarked hs.unmarked

theorem Persists.hasFlag (persists : rt.Persists rt') {id : TypeId} {flag : TypeFlags}
    (known : rt.types.contains id = true) (has : rt.types.hasFlag id flag = true) :
    rt'.types.hasFlag id flag = true :=
  (persists.types.info known).flags flag has

theorem Sound.baseFunction?_iff (sound : rt.Sound) {v : Value} {f : Function} :
    rt.baseFunction? v = some f ↔ ∃ r, v = .object r ∧ rt.heap.get? r = some (.function f) := by
  constructor
  · exact fun promised => Heap.get?_of_function? (function?_of_baseFunction? promised)
  · rintro ⟨r, rfl, here⟩
    exact sound.baseFunction?_eq (Heap.function?_of_get? here)

/-- What is neither a function nor a closure refuses to be called. -/
theorem run_call_other {v : Value} (function : rt.heap.function? v = none)
    (closure : ∀ c, rt.heap.object? v ≠ some (.closure c)) (args : List Value)
    (keywords : Keywords) :
    (Activity.call v args keywords).run rt = (.error (.notCallable (rt.typeName v)), rt) := by
  have unpromised : rt.baseFunction? v = none := by simp [baseFunction?, function]
  have refused (d : Activity.Dispatcher) :
      (Activity.callWith d args v keywords).run rt =
        (.error (.notCallable (rt.typeName v)), rt) := by
    rw [Activity.callWith.eq_def, Activity.run_get, unpromised]
    dsimp only
    split
    · rename_i c here
      exact absurd here (closure c)
    · rfl
  unfold Activity.call
  rw [Activity.run_get]
  cases rt.thread.room with
  | zero => exact refused _
  | succ room => exact refused _

/-- The mark on types and the layout of their instances say the same, now and later. -/
structure MarksAgree (rt : Runtime) : Prop where
  /-- A value passes for a function exactly if its object is one. -/
  layout : ∀ v f, rt.baseFunction? v = some f ↔
    ∃ r, v = .object r ∧ rt.heap.get? r = some (.function f)
  /-- An object made of a type, of whatever type, does not pass for one. -/
  instances : ∀ type, rt.types.contains type = true →
    ∃ v rt', (Activity.newInstance type).run rt = (.ok v, rt') ∧ rt'.isBaseFunction v = false
  /-- A new type does not get the mark, neither from its bases nor at any later time. -/
  made : ∀ name bases id types, (∀ b ∈ bases, rt.types.contains b = true) →
    rt.types.created < Types.idLimit → rt.types.create name bases = .ok (id, types) →
    rt.types.contains id = false ∧
      ∀ rt', Reaches { rt with types } rt' → rt'.types.contains id = true ∧
        rt'.types.hasFlag id .baseFunction = false
  /-- Flags are set for good. They are refused only if they would mark a changeable type. -/
  set : ∀ id flags, rt.types.contains id = true →
    match rt.types.addFlags id flags with
    | .ok types => ∀ rt' flag, Reaches { rt with types } rt' → flags.has flag = true →
        rt'.types.hasFlag id flag = true
    | .error _ => flags.has .baseFunction = true ∧ rt.types.hasFlag id .heapType = true
  /-- No flag is ever lost. -/
  kept : ∀ rt' id flag, rt.Reaches rt' → rt.types.contains id = true →
    rt.types.hasFlag id flag = true → rt'.types.hasFlag id flag = true
  /-- The call of a function is its dispatch. -/
  dispatched : ∃ level, ∀ v f, rt.heap.function? v = some f → ∀ args keywords,
    (Activity.call v args keywords).run rt =
      (Activity.dispatchWith level v f args keywords).run rt
  /-- However deep a call goes, nothing but functions is dispatched. -/
  functions : ∀ i : Invocation, rt.KnowsAll i.values → Activity.EveryDispatch rt i fun d =>
    d.runtime.heap.function? d.callable = some d.function
  /-- What is neither a function nor a closure refuses to be called. -/
  others : ∀ v args keywords, rt.heap.function? v = none →
    (∀ c, rt.heap.object? v ≠ some (.closure c)) →
    (Activity.call v args keywords).run rt = (.error (.notCallable (rt.typeName v)), rt)

/-- The mark agrees with the layout. -/
theorem Reachable.marks_agree (h : rt.Reachable) : rt.MarksAgree := by
  have sound := h.sound
  constructor
  case layout => exact fun v f => sound.baseFunction?_iff
  case instances =>
    intro type known
    let o : Object := .ofClass type .empty
    let rt' := ((Activity.allocate o).run rt).2
    have here : rt'.heap.get? rt.heap.nextRef = some o := (Heap.get?_push ..).trans (if_pos rfl)
    refine ⟨.object rt.heap.nextRef, rt', rfl, ?_⟩
    simp [isBaseFunction, baseFunction?, Heap.function?, Heap.object?, here, o, Object.function?]
  case made =>
    intro name bases id types known room created
    have fresh := sound.numbered.fresh room
    obtain ⟨_, _, -, -, same, registered⟩ := Types.create_cases created
    have builtin : id.isBuiltin = false := same ▸ sound.numbered.isBuiltin_nextId room
    have there : types.contains id = true := by
      rw [registered, same]
      exact Registry.contains_of_get? (Registry.get?_register_self ..)
    refine ⟨same ▸ fresh, fun rt' later => ?_⟩
    have step : rt.Step { rt with types } := .create name known room rfl created rfl
    have reachable := (h.reaches (.single step)).reaches later
    have stays : rt'.types.contains id = true :=
      (((h.reaches (.single step)).sound.persists later).types).contains there
    exact ⟨stays, Types.Unmarked.hasFlag reachable.unmarked stays builtin⟩
  case set =>
    intro id flags known
    cases added : rt.types.addFlags id flags with
    | error cause =>
      unfold Types.addFlags at added
      split at added
      · rename_i refused
        simpa using refused
      · cases added
    | ok types =>
      intro rt' flag later asked
      have change : rt.Change { rt with types } := .addFlags id flags rfl added rfl
      have before := h.reaches (.single (.change change))
      have stays : types.contains id = true := change.grows.types.contains known
      refine (before.sound.persists later).hasFlag stays ?_
      obtain ⟨t, ht⟩ := Registry.exists_get?_of_contains known
      have now : types.get? id = some { t with flags := t.flags.join flags } := by
        rw [Types.addFlags_eq added, Registry.get?_modify, if_pos rfl, ht]
        rfl
      rw [Types.hasFlag, Types.info_of_get? now]
      exact TypeFlags.has_join_right _ asked
  case kept => exact fun rt' id flag later known has => (sound.persists later).hasFlag known has
  case dispatched =>
    obtain ⟨level, calls⟩ := Activity.run_call rt
    exact ⟨level, fun v f hf => calls (sound.baseFunction?_eq hf)⟩
  case functions =>
    intro i known
    refine Activity.Throughout.everyDispatch sound ?_ known
    exact fun d _ promised _ _ _ => function?_of_baseFunction? promised
  case others => exact fun v args keywords function closure => run_call_other function closure _ _

/-- A class under the type of all functions, which may not be marked; dicts, which may; an instance
of a type of functions; a dict; and a function. -/
def marking : Session :=
  (Session.start .standard .empty).run [
    (.newType "F" [.builtin "base_function"], some "F"),
    (.addTypeFlags (.kept "F") .baseFunction, none),
    (.addTypeFlags (.builtin "dict") .baseFunction, none),
    (.newInstance (.builtin "function"), some "instance"),
    (.make (.dict []), some "dict"),
    (.define "m" ⟨"m", .noArgs, .depth, .noArgs, none, false⟩, none),
    (.newBuiltinFunction "m" none none, some "f")]

theorem marking_reachable : marking.Reachable :=
  (Session.Reachable.start _ _).run (by decide +kernel)

/-- Dicts carry the mark and are no functions; the class does not get it; the instance of the type
of functions, which carries it, is none, and cannot be called. -/
theorem marks_agree_marking :
    marking.runtime.types.hasFlag .dict .baseFunction = true ∧
      marking.runtime.types.hasFlag ⟨256⟩ .baseFunction = false ∧
      marking.runtime.baseFunction? (.object 0) = none ∧
      marking.runtime.baseFunction? (.object 1) = none ∧
      (∃ f, marking.runtime.baseFunction? (.object 2) = some f) ∧
      (Activity.call (.object 0) [] []).run marking.runtime =
        (.error (.notCallable "function"), marking.runtime) := by
  have agree := Reachable.marks_agree (.of_session marking_reachable)
  have there : (marking.runtime.heap.function? (.object 2)).isSome := by decide +kernel
  obtain ⟨f, hf⟩ := Option.isSome_iff_exists.mp there
  have function := (agree.layout (.object 2) f).mpr (Heap.get?_of_function? hf)
  have other (r : Ref) (plain : (marking.runtime.heap.function? (.object r)).isNone) :
      marking.runtime.baseFunction? (.object r) = none := by
    cases promised : marking.runtime.baseFunction? (.object r) with
    | none => rfl
    | some f =>
      rw [function?_of_baseFunction? promised] at plain
      cases plain
  refine ⟨by decide +kernel, by decide +kernel, other 0 (by decide +kernel),
    other 1 (by decide +kernel), ⟨f, function⟩, ?_⟩
  have named : marking.runtime.typeName (.object 0) = "function" := by decide +kernel
  rw [← named]
  have typed : (marking.runtime.heap.object? (.object 0)).map Object.typeId = some .function := by
    decide +kernel
  refine agree.others (.object 0) [] [] (Option.isNone_iff_eq_none.mp (by decide +kernel)) ?_
  intro c here
  rw [here] at typed
  cases typed

end Runtime
end Callables
