import Callables.Proofs.Markers
import Callables.Proofs.TypeSteps

namespace Callables

namespace TypeFlags

theorem has_heapType (flags : TypeFlags) :
    flags.has .heapType = flags.bits.toBitVec.getLsbD 0 :=
  has_of_bit rfl (by decide) flags

@[simp] theorem has_heapType_join (a b : TypeFlags) :
    (a.join b).has .heapType = (a.has .heapType || b.has .heapType) := by
  simp only [has_heapType, join, UInt32.toBitVec_or, BitVec.getLsbD_or]

def conflict (flags : TypeFlags) : Bool := flags.has .heapType && flags.has .baseFunction

def refuses (flags more : TypeFlags) : Bool := more.has .baseFunction && flags.has .heapType

def request (flags more : TypeFlags) : TypeFlags :=
  if flags.refuses more then flags else flags.join more

/-- A request that is not refused although it brings the two flags together: the type is changeable
only from now on. -/
def slips (flags more : TypeFlags) : Bool :=
  !flags.has .heapType && more.has .heapType &&
    (flags.has .baseFunction || more.has .baseFunction)

variable {flags more : TypeFlags}

/-- The two flags come together by such a request and in no other way. -/
theorem conflict_request (flags more : TypeFlags) :
    (flags.request more).conflict = (flags.conflict || flags.slips more) := by
  unfold request
  split
  · rename_i refused
    obtain ⟨asked, held⟩ := Bool.and_eq_true_iff.mp refused
    simp [slips, held]
  · rename_i accepted
    simp only [refuses, Bool.and_eq_true, not_and, Bool.not_eq_true] at accepted
    simp only [conflict, slips, has_heapType_join, has_baseFunction_join]
    cases held : flags.has .heapType with
    | false => simp
    | true =>
      have unasked : more.has .baseFunction = false := by
        cases asked : more.has .baseFunction with
        | false => rfl
        | true => exact absurd held (by simp [accepted asked])
      simp [unasked]

/-- Of the requests that would bring the two flags together, all others are refused. -/
theorem refuses_iff (apart : flags.conflict = false)
    (together : (flags.join more).conflict = true) :
    flags.refuses more = true ↔ flags.slips more = false := by
  simp only [conflict, has_heapType_join, has_baseFunction_join] at apart together
  unfold refuses slips
  cases held : flags.has .heapType with
  | true => simp_all
  | false =>
    rw [held, Bool.false_or] at together
    rw [Bool.not_false, Bool.true_and, together]
    simp

/-- Among requests to a type that is not changeable yet, the first one that makes it changeable
comes with the promise of the layout or after it. -/
def Slips (flags : TypeFlags) (requests : List TypeFlags) : Prop :=
  flags.has .heapType = false ∧ ∃ before more after, requests = before ++ more :: after ∧
    more.has .heapType = true ∧ (∀ m ∈ before, m.has .heapType = false) ∧
    (flags.has .baseFunction = true ∨ ∃ m ∈ before ++ [more], m.has .baseFunction = true)

theorem slips_nil : ¬flags.Slips [] := by
  rintro ⟨-, before, more, after, none, -⟩
  simp at none

theorem not_slips_of_held {requests : List TypeFlags} (held : flags.has .heapType = true) :
    ¬flags.Slips requests := by
  rintro ⟨fixed, -⟩
  rw [held] at fixed
  cases fixed

/-- The first of the requests decides, or it leaves it to the others. -/
theorem slips_cons {requests : List TypeFlags} :
    flags.Slips (more :: requests) ↔
      flags.slips more = true ∨ (flags.request more).Slips requests := by
  cases held : flags.has .heapType with
  | true =>
    have stays : (flags.request more).has .heapType = true := by
      unfold request
      split <;> simp [held]
    simp [not_slips_of_held held, not_slips_of_held stays, slips, held]
  | false =>
    have accepted : flags.request more = flags.join more := by simp [request, refuses, held]
    rw [accepted]
    cases turns : more.has .heapType with
    | true =>
      have done : (flags.join more).has .heapType = true := by simp [turns]
      simp only [not_slips_of_held done, or_false]
      constructor
      · rintro ⟨-, before, first, after, split, turned, earlier, promised⟩
        cases before with
        | nil =>
          obtain ⟨rfl, rfl⟩ := List.cons.inj split
          simpa [slips, held, turns] using promised
        | cons m before =>
          obtain ⟨rfl, -⟩ := List.cons.inj split
          rw [earlier _ List.mem_cons_self] at turns
          cases turns
      · intro slip
        refine ⟨held, [], more, requests, rfl, turns, by simp, ?_⟩
        simpa [slips, held, turns] using slip
    | false =>
      have quiet : flags.slips more = false := by simp [slips, turns]
      simp only [quiet, Bool.false_eq_true, false_or]
      constructor
      · rintro ⟨-, before, first, after, split, turned, earlier, promised⟩
        cases before with
        | nil =>
          obtain ⟨rfl, rfl⟩ := List.cons.inj split
          rw [turned] at turns
          cases turns
        | cons m before =>
          obtain ⟨rfl, rfl⟩ := List.cons.inj split
          refine ⟨by simp [held, turns], before, first, after, rfl, turned,
            fun m hm => earlier m (List.mem_cons_of_mem _ hm), ?_⟩
          simp only [List.cons_append, List.mem_cons, exists_eq_or_imp] at promised
          rw [has_baseFunction_join, Bool.or_eq_true, or_assoc]
          exact promised
      · rintro ⟨-, before, first, after, rfl, turned, earlier, promised⟩
        refine ⟨held, more :: before, first, after, rfl, turned, ?_, ?_⟩
        · exact List.forall_mem_cons.mpr ⟨turns, earlier⟩
        · simp only [List.cons_append, List.mem_cons, exists_eq_or_imp]
          rw [has_baseFunction_join, Bool.or_eq_true, or_assoc] at promised
          exact promised

theorem conflict_requests (requests : List TypeFlags) (flags : TypeFlags) :
    (requests.foldl request flags).conflict = true ↔
      flags.conflict = true ∨ flags.Slips requests := by
  induction requests generalizing flags with
  | nil => simp [slips_nil]
  | cons more requests ih =>
    rw [List.foldl_cons, ih, conflict_request, slips_cons, Bool.or_eq_true, or_assoc]

end TypeFlags

namespace Types

def flagsOf (types : Types) (id : TypeId) : TypeFlags := (types.info id).flags

def request (types : Types) (asked : TypeId × TypeFlags) : Types :=
  match types.addFlags asked.1 asked.2 with
  | .ok types' => types'
  | .error _ => types

section Request

variable {types types' : Types} {id : TypeId} {flags : TypeFlags}

theorem addFlags_of_refuses (refused : (types.flagsOf id).refuses flags = true) :
    types.addFlags id flags = .error (.baseFunctionOnHeapType (types.info id).name) :=
  if_pos refused

theorem addFlags_of_accepts (accepted : (types.flagsOf id).refuses flags = false) :
    types.addFlags id flags =
      .ok (types.modify id fun t => { t with flags := t.flags.join flags }) :=
  if_neg (Bool.eq_false_iff.mp accepted)

theorem accepts_of_addFlags (added : types.addFlags id flags = .ok types') :
    (types.flagsOf id).refuses flags = false := by
  refine Bool.eq_false_iff.mpr fun refused => ?_
  rw [addFlags_of_refuses refused] at added
  cases added

theorem flagsOf_modify {f : TypeInfo → TypeInfo} {other : TypeId}
    (known : types.contains other = true) :
    flagsOf (types.modify id f) other =
      if other = id then (f (types.info other)).flags else types.flagsOf other := by
  obtain ⟨t, found⟩ := Registry.exists_get?_of_contains known
  have changed := Registry.get?_modify types id other f
  rw [found] at changed
  rw [flagsOf, flagsOf, info_of_get? found]
  split at changed <;> rename_i same
  · rw [info_of_get? changed, if_pos same]
  · rw [info_of_get? changed, if_neg same]

/-- A request sets flags of the type that it is about and of no other type. -/
theorem flagsOf_addFlags (added : types.addFlags id flags = .ok types') {other : TypeId}
    (known : types.contains other = true) :
    types'.flagsOf other =
      if other = id then (types.flagsOf other).request flags else types.flagsOf other := by
  rw [addFlags_eq added, flagsOf_modify known]
  split
  · rename_i same
    rw [TypeFlags.request, if_neg]
    · rfl
    · rw [same, accepts_of_addFlags added]
      simp
  · rfl

theorem flagsOf_request (asked : TypeId × TypeFlags) (known : types.contains id = true) :
    (types.request asked).flagsOf id =
      if id = asked.1 then (types.flagsOf id).request asked.2 else types.flagsOf id := by
  obtain ⟨other, flags⟩ := asked
  unfold request
  cases added : types.addFlags other flags with
  | ok types' => exact flagsOf_addFlags added known
  | error fault =>
    dsimp only
    split
    · rename_i same
      subst same
      rw [TypeFlags.request, if_pos]
      refine Bool.of_not_eq_false fun accepted => ?_
      rw [addFlags_of_accepts accepted] at added
      cases added
    · rfl

theorem contains_request (asked : TypeId × TypeFlags) (known : types.contains id = true) :
    (types.request asked).contains id = true := by
  unfold request
  split
  · rename_i added
    rw [addFlags_eq added]
    exact (types.grows_modify _ (evolves_addFlags _)).contains known
  · exact known

/-- Of all requests, those that are about a type decide its flags. -/
theorem flagsOf_requests (requests : List (TypeId × TypeFlags)) (known : types.contains id = true) :
    flagsOf (requests.foldl request types) id =
      ((requests.filter (·.1 == id)).map Prod.snd).foldl TypeFlags.request (types.flagsOf id) := by
  induction requests generalizing types with
  | nil => rfl
  | cons asked requests ih =>
    rw [List.foldl_cons, ih (contains_request asked known), flagsOf_request asked known]
    by_cases same : asked.1 = id
    · rw [if_pos same.symm, List.filter_cons_of_pos (by simpa using same)]
      rfl
    · rw [if_neg (Ne.symm same), List.filter_cons_of_neg (by simpa using same)]

end Request

end Types

namespace Runtime

variable {rt rt' : Runtime}

/-- What a step does to the flags of a type that is there afterwards: nothing, or they have been
asked for, or the type is new. -/
theorem Step.flags_cases (step : rt.Step rt') {id : TypeId}
    (known : rt'.types.contains id = true) :
    rt.types.contains id = true ∧ (rt'.types.flagsOf id = rt.types.flagsOf id ∨
      ∃ more, rt.types.addFlags id more = .ok rt'.types) ∨
    (rt'.types.flagsOf id).has .baseFunction = false := by
  have unchanged (types : rt'.types = rt.types) : rt.types.contains id = true ∧
      (rt'.types.flagsOf id = rt.types.flagsOf id ∨
        ∃ more, rt.types.addFlags id more = .ok rt'.types) := by
    rw [types] at known ⊢
    exact ⟨known, .inl rfl⟩
  cases step with
  | change change =>
    cases change with
    | quiet _ types | allocate _ _ _ types | replace _ _ _ _ _ _ _ types =>
      exact .inl (unchanged types)
    | setAttribute other _ _ _ types | eraseAttribute other _ _ types =>
      rw [types] at known ⊢
      obtain ⟨t, found⟩ := Registry.exists_get?_of_contains known
      have before := Types.contains_of_get?_modify found
      refine .inl ⟨before, .inl ?_⟩
      rw [Types.modifyAttributes, Types.flagsOf_modify before]
      split <;> rfl
    | addFlags other more _ added =>
      rw [Types.addFlags_eq added] at known
      obtain ⟨t, found⟩ := Registry.exists_get?_of_contains known
      have before := Types.contains_of_get?_modify found
      refine .inl ⟨before, ?_⟩
      by_cases same : id = other
      · exact .inr ⟨more, same ▸ added⟩
      · left
        rw [Types.flagsOf_addFlags added before, if_neg same]
  | create name _ _ _ made =>
    obtain ⟨bases, ancestors, -, -, -, types⟩ := Types.create_cases made
    obtain ⟨t, found⟩ := Registry.exists_get?_of_contains known
    rw [Types.flagsOf, Types.info_of_get? found]
    rw [types, Types.get?_create] at found
    split at found
    · obtain rfl := Option.some.inj found
      exact .inr (Types.has_baseFunction_newFlags _ _)
    · refine .inl ⟨Registry.contains_of_get? found, .inl ?_⟩
      rw [Types.flagsOf, Types.info_of_get? found]
  | release _ _ _ types => exact .inl (unchanged types)

/-- A request in the past of a runtime was accepted though it brought the two flags of a type
together. -/
def Slipped (rt : Runtime) (id : TypeId) : Prop :=
  ∃ (before after : Runtime) (more : TypeFlags), before.Reachable ∧
    before.types.contains id = true ∧ before.types.addFlags id more = .ok after.types ∧
    (before.types.flagsOf id).slips more = true ∧ before.Step after ∧ after.Reaches rt

theorem Slipped.step {id : TypeId} (slipped : rt.Slipped id) (step : rt.Step rt') :
    rt'.Slipped id := by
  obtain ⟨before, after, more, reachable, known, added, slips, change, later⟩ := slipped
  exact ⟨before, after, more, reachable, known, added, slips, change, later.tail step⟩

def Explained (rt : Runtime) : Prop :=
  ∀ id, rt.types.contains id = true → (rt.types.flagsOf id).conflict = true → rt.Slipped id

theorem Explained.step (explained : rt.Explained) (reachable : rt.Reachable)
    (step : rt.Step rt') : rt'.Explained := by
  intro id known conflict
  rcases step.flags_cases known with ⟨before, same | ⟨more, added⟩⟩ | plain
  · exact (explained id before (same ▸ conflict)).step step
  · rw [Types.flagsOf_addFlags added before, if_pos rfl, TypeFlags.conflict_request,
      Bool.or_eq_true] at conflict
    rcases conflict with conflict | slips
    · exact (explained id before conflict).step step
    · exact ⟨rt, rt', more, reachable, before, added, slips, step, .refl⟩
  · simp [TypeFlags.conflict, plain] at conflict

theorem Explained.reaches (explained : rt.Explained) (reachable : rt.Reachable)
    (reaches : rt.Reaches rt') : rt'.Explained := by
  induction reaches with
  | refl => exact explained
  | tail before step ih => exact ih.step (reachable.reaches before) step

end Runtime

theorem Session.Reachable.explained {s : Session} (h : s.Reachable) : s.runtime.Explained := by
  induction h with
  | start config entries =>
    have none : ∀ e ∈ Types.initial.entries, e.2.flags.conflict = false := by decide
    intro id known conflict
    obtain ⟨t, found⟩ := Registry.exists_get?_of_contains known
    rw [Types.flagsOf, Types.info_of_get? found, none _ (Registry.mem_of_get? found)] at conflict
    cases conflict
  | step before operation room label ih =>
    exact ih.reaches (.of_session before) (before.sound.step operation room label).2

namespace Runtime

variable {rt : Runtime}

theorem Reachable.explained (h : rt.Reachable) : rt.Explained := by
  obtain ⟨s, hs, reaches⟩ := h
  exact hs.explained.reaches (.of_session hs) reaches

structure Excludes (rt : Runtime) : Prop where
  /-- No type that is made at run time has both flags. -/
  made : ∀ id, rt.types.contains id = true → id.isBuiltin = false →
    (rt.types.flagsOf id).conflict = false
  /-- A type that has both flags is there from the start, and has got them by a request that made
  it changeable when it had given the promise, or that asked for both. -/
  explained : ∀ id, rt.types.contains id = true → (rt.types.flagsOf id).conflict = true →
    id.isBuiltin = true ∧ rt.Slipped id
  /-- Any other request that would bring the two flags together is refused. -/
  decided : ∀ id more, (rt.types.flagsOf id).conflict = false →
    ((rt.types.flagsOf id).join more).conflict = true →
    ((rt.types.flagsOf id).refuses more = true ↔ (rt.types.flagsOf id).slips more = false)
  /-- The promise is refused to a type that is changeable, and nothing happens to the types. -/
  refused : ∀ s s' : Session, s.runtime.types = rt.types → ∀ type id flags label,
    (Program.readType type).run s = (.ok id, s') →
    (rt.types.flagsOf id).refuses flags = true →
      (s.step (.addTypeFlags type flags) label).1 =
        .error (.failed (.typeFault (.baseFunctionOnHeapType (rt.types.info id).name))) ∧
      (s.step (.addTypeFlags type flags) label).2.runtime.types = rt.types
  /-- All other requests are accepted. They set the flags of the one type. -/
  accepted : ∀ s s' : Session, s.runtime.types = rt.types → ∀ type id flags label,
    (Program.readType type).run s = (.ok id, s') → rt.types.contains id = true →
    (rt.types.flagsOf id).refuses flags = false →
      (s.step (.addTypeFlags type flags) label).1 =
        .ok (.flags ((rt.types.flagsOf id).join flags)) ∧
      (s.step (.addTypeFlags type flags) label).2.runtime.types =
        rt.types.modify id fun t => { t with flags := t.flags.join flags }
  /-- Whatever is requested, in whatever order and of whatever types, a type comes to have both
  flags exactly if its first request to be changeable comes with the promise or after it. -/
  requests : ∀ (requests : List (TypeId × TypeFlags)) (id : TypeId), rt.types.contains id = true →
    ((Types.flagsOf (requests.foldl Types.request rt.types) id).conflict = true ↔
      (rt.types.flagsOf id).conflict = true ∨
      (rt.types.flagsOf id).Slips ((requests.filter (·.1 == id)).map Prod.snd))

/-- Changeable types and the promise of the layout exclude each other, except where a builtin
type is made changeable too late. -/
theorem Reachable.flags_exclude (h : rt.Reachable) : rt.Excludes := by
  have plain : ∀ id, rt.types.contains id = true → id.isBuiltin = false →
      (rt.types.flagsOf id).conflict = false := by
    intro id known heap
    have unmarked := Types.Unmarked.hasFlag h.unmarked known heap
    rw [Types.hasFlag] at unmarked
    simp [TypeFlags.conflict, Types.flagsOf, unmarked]
  constructor
  case made => exact plain
  case explained =>
    intro id known conflict
    refine ⟨Bool.of_not_eq_false fun heap => ?_, h.explained id known conflict⟩
    rw [plain id known heap] at conflict
    cases conflict
  case decided => exact fun id more apart together => TypeFlags.refuses_iff apart together
  case refused =>
    intro s s' same type id flags label read refused
    have ends := Session.endsWith_addTypeFlags read flags
    rw [same, Types.addFlags_of_refuses refused] at ends
    exact ⟨Session.Ends.answer ends label, (Session.Ends.types ends label).trans same⟩
  case accepted =>
    intro s s' same type id flags label read known accepted
    have ends := Session.endsWith_addTypeFlags read flags
    rw [same, Types.addFlags_of_accepts accepted] at ends
    refine ⟨(Session.Ends.answer ends label).trans ?_, Session.Ends.types ends label⟩
    change Except.ok (Outcome.flags (Types.flagsOf _ id)) = _
    rw [Types.flagsOf_modify known, if_pos rfl]
    rfl
  case requests =>
    intro requests id known
    rw [Types.flagsOf_requests requests known]
    exact TypeFlags.conflict_requests _ _

/-- A class is refused the promise. The type of dicts gets both flags in one request; the type of
functions, which gives the promise from the start, is made changeable. -/
def mixing : Session :=
  (Session.start .standard .empty).run [
    (.newType "T" [], some "T"),
    (.addTypeFlags (.kept "T") .baseFunction, none),
    (.addTypeFlags (.builtin "dict") (.join .heapType .baseFunction), none),
    (.addTypeFlags (.builtin "function") .heapType, none)]

theorem mixing_reachable : mixing.Reachable :=
  (Session.Reachable.start _ _).run (by decide +kernel)

theorem flags_exclude_mixing :
    (mixing.runtime.types.flagsOf ⟨256⟩).conflict = false ∧
      (mixing.step (.addTypeFlags (.kept "T") .baseFunction) none).1 =
        .error (.failed (.typeFault (.baseFunctionOnHeapType "T"))) ∧
      mixing.runtime.Slipped .dict ∧ mixing.runtime.Slipped .function := by
  have excludes := Reachable.flags_exclude (.of_session mixing_reachable)
  have named : (mixing.runtime.types.info ⟨256⟩).name = "T" := by decide +kernel
  have refused := excludes.refused mixing mixing rfl (.kept "T") ⟨256⟩ .baseFunction none
    (Program.run_readType_kept (by decide +kernel)) (by decide +kernel)
  rw [named] at refused
  exact ⟨excludes.made ⟨256⟩ (by decide +kernel) (by decide +kernel), refused.1,
    (excludes.explained .dict (by decide +kernel) (by decide +kernel)).2,
    (excludes.explained .function (by decide +kernel) (by decide +kernel)).2⟩

/-- Types that are there from the start can be made changeable and promise the layout. -/
theorem flags_meet : ¬∀ s : Session, s.Reachable → ∀ id, s.runtime.types.contains id = true →
    (s.runtime.types.hasFlag id .heapType && s.runtime.types.hasFlag id .baseFunction) = false := by
  intro apart
  have dict := apart mixing mixing_reachable .dict (by decide +kernel)
  have together : (mixing.runtime.types.hasFlag .dict .heapType &&
      mixing.runtime.types.hasFlag .dict .baseFunction) = true := by decide +kernel
  rw [dict] at together
  cases together

end Runtime

end Callables
