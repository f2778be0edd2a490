import Callables.Proofs.Change

namespace Callables

def Metadata.blank : Metadata :=
  ⟨default, default, .none, none, none, none, none, none, none, .none, none⟩

theorem FunctionKind.withMetadata_withMetadata (kind : FunctionKind) (m m' : Metadata) :
    (kind.withMetadata m).withMetadata m' = kind.withMetadata m' := by
  cases kind <;> rfl

theorem FunctionKind.wrapped?_withMetadata (kind : FunctionKind) (m : Metadata) :
    (kind.withMetadata m).wrapped? = kind.wrapped? := by
  cases kind <;> rfl

namespace Object

/-- What of an object stays as long as it is there. -/
def core : Object → Object
  | .dict _ => .dict .empty
  | .ofClass type _ => .ofClass type .empty
  | .function f => .function { f with kind := f.kind.withMetadata .blank }
  | o => o

def marks (o : Object) : List Int := (o.function?.map Function.watchers).getD []

@[simp] theorem core_metadata (f : Function) (m : Metadata) :
    (Object.function { f with kind := f.kind.withMetadata m }).core = (Object.function f).core := by
  simp [core, FunctionKind.withMetadata_withMetadata]

theorem function_of_core {f : Function} {o : Object} (h : o.core = (Object.function f).core) :
    ∃ g, o = .function g ∧ g.entry = f.entry ∧ g.receiver = f.receiver ∧ g.module = f.module ∧
      g.owner = f.owner ∧ g.watchers = f.watchers ∧ g.wrapped? = f.wrapped? := by
  cases o with
  | function g =>
    simp only [core, Object.function.injEq, Function.mk.injEq] at h
    obtain ⟨he, hr, hm, ho, hw, hk⟩ := h
    have := congrArg FunctionKind.wrapped? hk
    simp only [FunctionKind.wrapped?_withMetadata] at this
    exact ⟨g, rfl, he, hr, hm, ho, hw, this⟩
  | _ => simp [core] at h

theorem dict_of_core {entries : Dict Value} {o : Object} (h : o.core = (Object.dict entries).core) :
    ∃ entries', o = .dict entries' := by
  cases o with
  | dict entries' => exact ⟨entries', rfl⟩
  | _ => simp [core] at h

theorem marks_of_core {o o' : Object} (h : o'.core = o.core) : o'.marks = o.marks := by
  cases o with
  | function f =>
    obtain ⟨g, rfl, _, _, _, _, hw, _⟩ := function_of_core h
    simp [marks, function?, hw]
  | tuple | dict | module | code | ofClass | closure =>
    cases o' with
    | function f => cases h
    | _ => rfl

/-- A bound wrapper is bound, and a module has a dict. -/
structure Formed (h : Heap) (o : Object) : Prop where
  bound : ∀ f, o = .function f → f.isMethod = true → f.isBound = true
  dict : ∀ name names, o = .module name names → ∃ entries, h.get? names = some (.dict entries)

theorem Formed.of_core {h h' : Heap} {o o' : Object} (formed : o.Formed h)
    (same : o'.core = o.core)
    (dicts : ∀ {r entries}, h.get? r = some (.dict entries) →
      ∃ entries', h'.get? r = some (.dict entries')) : o'.Formed h' := by
  constructor
  · rintro g rfl hg
    obtain ⟨f, rfl, _, hr, _, _, _, hw⟩ := function_of_core same.symm
    have := formed.bound f rfl
    simp only [Function.isMethod, Function.isBound, hr, hw] at this hg ⊢
    exact this hg
  · rintro name names rfl
    have : o = .module name names := by
      cases o <;> simp [core] at same
      simp [same]
    obtain ⟨entries, he⟩ := formed.dict name names this
    exact dicts he

/-- An object that is neither a callable nor a module has nothing to be formed. -/
theorem formed_plain {h : Heap} {o : Object} (function : o.function? = none)
    (module : ∀ name names, o ≠ .module name names) : o.Formed h := by
  constructor
  · rintro f rfl
    simp [function?] at function
  · exact fun name names he => absurd he (module name names)

theorem formed_function {h : Heap} {f : Function} (bound : f.isMethod = true → f.isBound = true) :
    (Object.function f).Formed h :=
  ⟨fun _ he => Object.function.inj he ▸ bound, fun _ _ he => by cases he⟩

end Object

namespace Heap

/-- All objects are well formed. -/
def Formed (h : Heap) : Prop := ∀ r o, h.get? r = some o → o.Formed h

/-- What can become of a heap while nothing is released. -/
structure Builds (h h' : Heap) : Prop where
  size : h.size ≤ h'.size
  old : ∀ {r o}, h.get? r = some o → ∃ o', h'.get? r = some o' ∧ o'.core = o.core
  new : ∀ {r o'}, h.get? r = none → h'.get? r = some o' →
    h.size ≤ r ∧ o'.marks = [] ∧ o'.Formed h'

namespace Builds

theorem refl (h : Heap) : h.Builds h :=
  ⟨Nat.le_refl _, fun {_ o} ho => ⟨o, ho, rfl⟩, fun hn ho => by simp [hn] at ho⟩

theorem dicts {h h' : Heap} (builds : h.Builds h') {r : Ref} {entries : Dict Value}
    (found : h.get? r = some (.dict entries)) : ∃ entries', h'.get? r = some (.dict entries') := by
  obtain ⟨o, ho, same⟩ := builds.old found
  obtain ⟨entries', rfl⟩ := Object.dict_of_core same
  exact ⟨entries', ho⟩

theorem trans {a b c : Heap} (first : a.Builds b) (second : b.Builds c) : a.Builds c := by
  refine ⟨Nat.le_trans first.size second.size, ?_, ?_⟩
  · intro r o ho
    obtain ⟨o', ho', same⟩ := first.old ho
    obtain ⟨o'', ho'', same'⟩ := second.old ho'
    exact ⟨o'', ho'', same'.trans same⟩
  · intro r o'' hn ho''
    cases hb : b.get? r with
    | none =>
      obtain ⟨hs, fresh⟩ := second.new hb ho''
      exact ⟨Nat.le_trans first.size hs, fresh⟩
    | some o' =>
      obtain ⟨hs, unwatched, formed⟩ := first.new hn hb
      obtain ⟨o, ho, same⟩ := second.old hb
      obtain rfl := Option.some.inj (ho.symm.trans ho'')
      exact ⟨hs, (Object.marks_of_core same).trans unwatched, formed.of_core same second.dicts⟩

theorem formed {h h' : Heap} (builds : h.Builds h') (all : h.Formed) : h'.Formed := by
  intro r o' ho'
  cases hr : h.get? r with
  | none => exact (builds.new hr ho').2.2
  | some o =>
    obtain ⟨o'', ho'', same⟩ := builds.old hr
    obtain rfl := Option.some.inj (ho''.symm.trans ho')
    exact (all r o hr).of_core same builds.dicts

theorem isSome_get? {h h' : Heap} (builds : h.Builds h') {r : Ref} (inside : r < h.size) :
    (h'.get? r).isSome = (h.get? r).isSome := by
  cases before : h.get? r with
  | some o =>
    obtain ⟨o', there, -⟩ := builds.old before
    simp [there]
  | none =>
    cases later : h'.get? r with
    | none => rfl
    | some o' => exact absurd (builds.new before later).1 (Nat.not_le_of_lt inside)

theorem push {h : Heap} {o : Object} (unwatched : o.marks = []) (formed : o.Formed h) :
    h.Builds (h.push o) := by
  have old {r : Ref} {o' : Object} (found : h.get? r = some o') :
      (h.push o).get? r = some o' := get?_push_of_some o found
  refine ⟨by simp [Heap.size, Heap.push], fun {_ o'} ho' => ⟨o', old ho', rfl⟩, ?_⟩
  intro r o' hn ho'
  rw [get?_push] at ho'
  split at ho'
  · rename_i place
    obtain rfl := Option.some.inj ho'
    exact ⟨Nat.le_of_eq place.symm, unwatched, formed.of_core rfl fun he => ⟨_, old he⟩⟩
  · simp [hn] at ho'

theorem set {h : Heap} {r : Ref} {old new : Object} (found : h.get? r = some old)
    (same : new.core = old.core) : h.Builds (h.set r new) := by
  refine ⟨by simp [Heap.size, Heap.set], ?_, ?_⟩
  · intro r' o ho
    by_cases hr : r' = r
    · subst hr
      obtain rfl := Option.some.inj (found.symm.trans ho)
      exact ⟨new, get?_set_self new (lt_size_of_get? ho), same⟩
    · exact ⟨o, (get?_set_of_ne h new hr).trans ho, rfl⟩
  · intro r' o' hn ho'
    have hr : r' ≠ r := by
      rintro rfl
      simp [found] at hn
    simp [get?_set_of_ne h new hr, hn] at ho'

end Builds
end Heap

end Callables
