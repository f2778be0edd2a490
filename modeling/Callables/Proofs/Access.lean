import Callables.Proofs.Formation
import Callables.Proofs.MethodCalls
import Callables.Proofs.Subtyping

namespace Callables

namespace Types

variable {types : Types}

/-- What a lookup finds is an attribute of a type of the linearization. -/
theorem lookup_eq_some {id : TypeId} {name : String} {v : Value}
    (found : types.lookup id name = some v) :
    ∃ definer ∈ (types.info id).linearization,
      (types.info definer).attributes.get? name = some v := by
  obtain ⟨definer, hd, hv⟩ := List.exists_of_findSome?_eq_some found
  exact ⟨definer, hd, hv⟩

theorem Lawful.isSubtype_of_mem_linearization (lawful : types.Lawful) {id super : TypeId}
    (known : types.contains id = true) (h : super ∈ (types.info id).linearization) :
    types.isSubtype id super = true := by
  rw [lawful.linearization known] at h
  exact (lawful.isSubtype_iff_mem known).mpr (List.mem_cons.mp h)

end Types

namespace Runtime

variable {rt : Runtime}

/-- Callables with an owner class are attributes of subtypes of it only. -/
def Placed (rt : Runtime) : Prop :=
  ∀ id name v f owner, rt.types.contains id = true →
    (rt.types.info id).attributes.get? name = some v → rt.heap.function? v = some f →
    f.owner = some owner → rt.types.isSubtype id owner = true

def isPlaced (rt : Runtime) : Bool :=
  rt.types.entries.all fun e => e.2.attributes.values.all fun v =>
    (rt.heap.function? v).all fun f => f.owner.all (rt.types.isSubtype e.1)

theorem placed_of_isPlaced (test : rt.isPlaced = true) : rt.Placed := by
  intro id name v f owner known found hf ho
  obtain ⟨t, ht⟩ := Registry.exists_get?_of_contains known
  rw [Types.info_of_get? ht] at found
  have each := List.all_eq_true.mp test _ (Registry.mem_of_get? ht)
  have this := List.all_eq_true.mp each _ (Dict.mem_values_of_get? found)
  simpa [hf, ho] using this

/-- Whoever finds a callable along the linearization is a subtype of its owner class. -/
theorem Placed.isSubtype (placed : rt.Placed) (lawful : rt.types.Lawful) {id owner : TypeId}
    {name : String} {a : Value} {f : Function} (known : rt.types.contains id = true)
    (found : rt.types.lookup id name = some a) (hf : rt.heap.function? a = some f)
    (ho : f.owner = some owner) : rt.types.isSubtype id owner = true := by
  obtain ⟨definer, hd, ha⟩ := Types.lookup_eq_some found
  have sub := lawful.isSubtype_of_mem_linearization known hd
  have super := placed definer name a f owner (lawful.known_supertype known sub) ha hf ho
  exact (lawful.ordered known).trans definer owner sub super

/-- All functions but bound wrappers are of types that bind on access. -/
theorem Sound.bindsOnAccess (sound : rt.Sound) {a : Value} {f : Function}
    (hf : rt.heap.function? a = some f) (direct : f.isMethod = false) :
    rt.bindsOnAccess a = true := by
  obtain ⟨r, rfl, ho⟩ := Heap.get?_of_function? hf
  have type : rt.typeIdOf (.object r) = f.kind.typeId := by
    simp [Runtime.typeIdOf, ho, Object.typeId]
  have initially : Types.initial.contains f.kind.typeId = true ∧
      (Types.initial.info f.kind.typeId).flags.has .methodDescriptor = true := by
    cases hk : f.kind with
    | method wrapped =>
      simp [Function.isMethod, Function.wrapped?, hk, FunctionKind.wrapped?] at direct
    | builtin | defined | native =>
      dsimp only [FunctionKind.typeId]
      decide
  unfold Runtime.bindsOnAccess Runtime.typeOf
  rw [type]
  exact (sound.builtin.info initially.1).flags _ initially.2

/-- What access by way of a class makes of an attribute `a` that is found there. The accessor is the
object whose class it is, if it is not the class itself that is asked. -/
structure Accessed (rt : Runtime) (accessor : Option Value) (cls : TypeId) (a : Value)
    (result : Except CallError Value × Runtime) : Prop where
  /-- What is no function, already bound, or static and of no module, is answered as it is. -/
  asItIs : (∀ f, rt.baseFunction? a = some f →
    f.isBound = true ∨ f.entry.flags.has .static = true ∧ f.module = none) → result = (.ok a, rt)
  /-- Otherwise an entry that binds to classes binds to the class that was asked. -/
  onClass : ∀ f, rt.baseFunction? a = some f → f.isBound = false →
    (f.entry.flags.has .static = true → f.module ≠ none) → f.entry.flags.has .onClass = true →
    result = (.ok (.object rt.heap.nextRef), rt.adding (.function (directWrapper a f (.type cls))))
  /-- Other entries bind to the object, and to nothing if there is none. -/
  onObject : ∀ f, rt.baseFunction? a = some f → f.isBound = false →
    (f.entry.flags.has .static = true → f.module ≠ none) → f.entry.flags.has .onClass = false →
    match accessor with
    | some x => result =
        (.ok (.object rt.heap.nextRef), rt.adding (.function (directWrapper a f x)))
    | none => result = (.ok a, rt)

/-- What is found on a class goes through binding if its type asks for that. -/
theorem run_getClassAttribute {v a : Value} {accessor : Option Value} {cls : TypeId}
    {name : String} (access : rt.accessOf v = (accessor, cls))
    (found : rt.types.lookup cls name = some a) :
    (Activity.getClassAttribute v name).run rt =
      if rt.bindsOnAccess a then
        match rt.bindingReceiver? a accessor (some cls) with
        | some receiver => (Activity.bindMethod a receiver).run rt
        | none => (.ok a, rt)
      else (.ok a, rt) := by
  unfold Activity.getClassAttribute Activity.bindOnAccess
  rw [Activity.run_get, access]
  dsimp only
  rw [found]
  dsimp only
  cases rt.bindsOnAccess a with
  | false => rfl
  | true =>
    rw [if_pos rfl, if_pos rfl, Activity.run_get]
    cases rt.bindingReceiver? a accessor (some cls) <;> rfl

/-- Access by way of a class does not fail. The receiver conforms to the owner class, since the
class that is asked is a subtype of the class where the callable was placed. -/
theorem Arises.accessed (h : rt.Arises) (placed : rt.Placed) {v a : Value}
    {accessor : Option Value} {cls : TypeId} {name : String}
    (access : rt.accessOf v = (accessor, cls)) (known : rt.types.contains cls = true)
    (instanceOf : ∀ x, accessor = some x → rt.typeIdOf x = cls)
    (found : rt.types.lookup cls name = some a) :
    rt.Accessed accessor cls a ((Activity.getClassAttribute v name).run rt) := by
  rw [run_getClassAttribute access found]
  have sub {f : Function} (hf : rt.baseFunction? a = some f) {owner : TypeId}
      (ho : f.owner = some owner) : rt.types.isSubtype cls owner = true :=
    placed.isSubtype h.sound.lawful known found (function?_of_baseFunction? hf) ho
  have binds {f : Function} (hf : rt.baseFunction? a = some f) (unbound : f.isBound = false) :
      rt.bindsOnAccess a = true := by
    have hf' := function?_of_baseFunction? hf
    obtain ⟨r, rfl, here⟩ := Heap.get?_of_function? hf'
    refine h.sound.bindsOnAccess hf' ?_
    cases isMethod : f.isMethod with
    | false => rfl
    | true =>
      have := (h.formed r _ here).bound f rfl isMethod
      simp [unbound] at this
  constructor
  case asItIs =>
    intro plain
    have none : rt.bindingReceiver? a accessor (some cls) = none := by
      unfold bindingReceiver?
      cases hf : rt.baseFunction? a with
      | none => rfl
      | some f => rcases plain f hf with bound | ⟨static, module⟩ <;> simp_all
    rw [none]
    split <;> rfl
  case onClass =>
    intro f hf unbound module onClass
    have receiver : rt.bindingReceiver? a accessor (some cls) = some (.type cls) := by
      unfold bindingReceiver?
      simp_all
    rw [if_pos (binds hf unbound), receiver]
    refine run_bindMethod hf (by simpa [Function.isBound] using unbound) fun owner ho => ?_
    rw [conforms, if_pos onClass]
    exact sub hf ho
  case onObject =>
    intro f hf unbound module onObject
    have receiver : rt.bindingReceiver? a accessor (some cls) = accessor := by
      unfold bindingReceiver?
      simp_all
    rw [if_pos (binds hf unbound), receiver]
    cases accessor with
    | none => rfl
    | some x =>
      refine run_bindMethod hf (by simpa [Function.isBound] using unbound) fun owner ho => ?_
      unfold conforms
      rw [if_neg (by simp [onObject]), isInstance, typeOf, instanceOf x rfl]
      exact sub hf ho

theorem run_getClassAttribute_missing {v : Value} {accessor : Option Value} {cls : TypeId}
    {name : String} (access : rt.accessOf v = (accessor, cls))
    (missing : rt.types.lookup cls name = none) :
    (Activity.getClassAttribute v name).run rt = (.error (rt.noAttribute v name), rt) := by
  unfold Activity.getClassAttribute
  rw [Activity.run_get, access]
  dsimp only
  rw [missing]
  rfl

/-- An object that is neither function nor module nor class has its own attributes first. -/
theorem Ordinary.run_getAttribute {x : Value} (ordinary : rt.Ordinary x) (name : String) :
    (Activity.getAttribute x name).run rt =
      match (rt.ownAttributes? x).bind (·.get? name) with
      | some v => (.ok v, rt)
      | none => (Activity.getClassAttribute x name).run rt := by
  have object : (Activity.getObjectAttribute x name).run rt =
      match (rt.ownAttributes? x).bind (·.get? name) with
      | some v => (.ok v, rt)
      | none => (Activity.getClassAttribute x name).run rt := by
    unfold Activity.getObjectAttribute
    rw [Activity.run_get, ordinary.module]
    dsimp only
    cases (rt.ownAttributes? x).bind (·.get? name) <;> rfl
  unfold Activity.getAttribute Activity.getDirectAttribute
  rw [Activity.run_get, ordinary.function]
  dsimp only
  rw [Activity.run_get, ordinary.function]
  cases x with
  | type id => exact absurd rfl (ordinary.type id)
  | none | bool | int | float | text | object => exact object

/-- A class is asked for what is found along its own linearization. -/
theorem run_getAttribute_type (id : TypeId) (name : String) :
    (Activity.getAttribute (.type id) name).run rt =
      (Activity.getClassAttribute (.type id) name).run rt := by
  have none : rt.baseFunction? (.type id) = none := by
    simp [baseFunction?, Heap.function?, Heap.object?]
  unfold Activity.getAttribute Activity.getDirectAttribute
  rw [Activity.run_get, none]
  rfl

/-- What reading an attribute of an object or a class answers. An object answers with what it
has of its own; otherwise what is found along the linearization of the class goes through binding,
which does not fail as long as callables are placed on subtypes of their owner class. -/
theorem Arises.attribute_access (h : rt.Arises) (placed : rt.Placed) (name : String) :
    (∀ x, rt.Ordinary x →
      match (rt.ownAttributes? x).bind (·.get? name), rt.types.lookup (rt.typeIdOf x) name with
      | some v, _ => (Activity.getAttribute x name).run rt = (.ok v, rt)
      | none, none =>
        (Activity.getAttribute x name).run rt = (.error (rt.noAttribute x name), rt)
      | none, some a =>
        rt.Accessed (some x) (rt.typeIdOf x) a ((Activity.getAttribute x name).run rt)) ∧
    ∀ id, rt.types.contains id = true →
      match rt.types.lookup id name with
      | none => (Activity.getAttribute (.type id) name).run rt =
          (.error (rt.noAttribute (.type id) name), rt)
      | some a => rt.Accessed none id a ((Activity.getAttribute (.type id) name).run rt) := by
  constructor
  · intro x ordinary
    have known := h.sound.contains_typeIdOf x
    have access : rt.accessOf x = (some x, rt.typeIdOf x) := by
      have same : (rt.typeOf x).id = rt.typeIdOf x := (h.sound.lawful.info known).1
      rw [← same]
      cases x with
      | type id => exact absurd rfl (ordinary.type id)
      | none | bool | int | float | text | object => rfl
    rw [ordinary.run_getAttribute]
    cases (rt.ownAttributes? x).bind (·.get? name) with
    | some v => rfl
    | none =>
      cases found : rt.types.lookup (rt.typeIdOf x) name with
      | none => exact run_getClassAttribute_missing access found
      | some a =>
        refine h.accessed placed access known ?_ found
        rintro _ ⟨⟩
        rfl
  · intro id known
    rw [run_getAttribute_type]
    cases found : rt.types.lookup id name with
    | none => exact run_getClassAttribute_missing rfl found
    | some a => exact h.accessed placed rfl known (by simp) found

/-- In a session with one method on one class, the method is where it belongs, and the object of the
class is bound to it. -/
theorem attribute_access_enlisted :
    Session.enlisted.runtime.Placed ∧ Session.enlisted.runtime.Ordinary (.object 1) ∧
      Session.enlisted.runtime.Accessed (some (.object 1)) ⟨256⟩ (.object 0)
        ((Activity.getAttribute (.object 1) "m").run Session.enlisted.runtime) := by
  have placed : Session.enlisted.runtime.Placed := placed_of_isPlaced (by decide +kernel)
  have ordinary : Session.enlisted.runtime.Ordinary (.object 1) := by
    refine ⟨Option.isNone_iff_eq_none.mp ?_, by decide +kernel, fun _ h => by cases h⟩
    decide +kernel
  have access := (Arises.attribute_access (.of_session Session.enlisted_reachable) placed "m").1
    (.object 1) ordinary
  have own : (Session.enlisted.runtime.ownAttributes? (.object 1)).bind (·.get? "m") = none := by
    decide +kernel
  have ofClass : Session.enlisted.runtime.typeIdOf (.object 1) = ⟨256⟩ := by decide +kernel
  have found : Session.enlisted.runtime.types.lookup ⟨256⟩ "m" = some (.object 0) := by
    decide +kernel
  rw [own, ofClass, found] at access
  exact ⟨placed, ordinary, access⟩

end Runtime
end Callables
