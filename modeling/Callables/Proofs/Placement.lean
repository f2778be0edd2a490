import Callables.Proofs.Access
import Callables.Proofs.Lookups
import Callables.Proofs.Registration

namespace Callables.Runtime

variable {rt rt' : Runtime} {id : TypeId}

/-- A new callable that is declared on a class at most is put on that class. -/
theorem Placed.put (placed : rt.Placed) (sound : rt.Sound) {name : String} {f : Function}
    (declared : ∀ owner, f.owner = some owner → owner = id)
    (heap : rt'.heap = rt.heap.push (.function f))
    (types : rt'.types = rt.types.modifyAttributes id (·.set name (.object rt.heap.nextRef))) :
    rt'.Placed := by
  have grows : rt.types.Grows rt'.types :=
    types ▸ Types.grows_modifyAttributes rt.types id _
  intro x n v g owner known found hg ho
  have known₀ : rt.types.contains x = true := by
    obtain ⟨t, ht⟩ := Registry.exists_get?_of_contains known
    exact Types.contains_of_get?_modify (types ▸ ht)
  have sub (super : TypeId) : rt'.types.isSubtype x super = rt.types.isSubtype x super := by
    have evolved := grows.info known₀
    simp [Types.isSubtype, TypeInfo.isSubtype, evolved.id, evolved.ancestors]
  rw [sub]
  have own : (rt.types.modifyAttributes id (·.set name (.object rt.heap.nextRef))).own x n =
      some v := types ▸ found
  rw [Types.own_modifyAttributes _ _ known₀] at own
  by_cases here : x = id ∧ n = name
  · obtain ⟨rfl, rfl⟩ := here
    rw [if_pos rfl, Dict.get?_set_self] at own
    obtain rfl := Option.some.inj own
    rw [heap] at hg
    obtain rfl : f = g := by
      simpa [Heap.function?, Heap.object?, Heap.get?_push, Object.function?] using hg
    rw [declared owner ho]
    exact (sound.lawful.ordered known₀).refl
  · have before : rt.types.own x n = some v := by
      by_cases same : x = id
      · rw [if_pos same, Dict.get?_set_of_ne _ _ fun other => here ⟨same, other⟩] at own
        exact own
      · rw [if_neg same] at own
        exact own
    obtain ⟨t, ht⟩ := Registry.exists_get?_of_contains known₀
    have stored : t.attributes.get? n = some v := by
      simpa [Types.own, Types.info_of_get? ht] using before
    have live := sound.attributes ht v (Dict.mem_values_of_get? stored)
    obtain ⟨r, rfl, there⟩ := Heap.get?_of_function? hg
    obtain ⟨o, ho'⟩ := live
    have same := Heap.get?_push_of_some (.function f) ho'
    rw [← heap, there] at same
    obtain rfl := Option.some.inj same
    exact placed x n _ g owner known₀ before (Heap.function?_of_get? ho') ho

/-- Registering one entry keeps callables where they belong. -/
theorem Placed.addToType (placed : rt.Placed) (sound : rt.Sound)
    (known : rt.types.contains id = true) (added : Nat) (e : Entry) :
    ((Activity.addToType id added e).run rt).2.Placed := by
  obtain ⟨t, ht⟩ := Registry.exists_get?_of_contains known
  have found : (Target.type id).names? rt = some t.attributes := by simp [Target.names?, ht]
  have run := Target.run_add (by simp [found]) (.refl rt) found added e
  change (Activity.addToType id added e).run rt = _ at run
  rw [run]
  split
  · obtain ⟨metadata, rt₁, made, -, -, types, heap⟩ := Activity.run_newNativeFunction rt e
      (if e.flags.has .static then none else (Target.type id).receiver?)
      ((Target.type id).module? rt)
      (if e.flags.has .static then none else (Target.type id).owner?)
    rw [run_bind, made]
    have put : ((Activity.setTypeAttribute id e.name (.object rt.heap.nextRef)).run rt₁).2.types =
        rt.types.modifyAttributes id (·.set e.name (.object rt.heap.nextRef)) := types ▸ rfl
    refine placed.put sound ?_ heap put
    intro owner declared
    dsimp only [Target.owner?] at declared
    split at declared
    · cases declared
    · exact (Option.some.inj declared).symm
  · exact placed

/-- A table on a class leaves callables where they belong. -/
theorem Placed.addTableToType (placed : rt.Placed) (sound : rt.Sound)
    (known : rt.types.contains id = true) (table : List Entry) :
    ((Activity.addTableToType id table).run rt).2.Placed := by
  obtain ⟨t, ht⟩ := Registry.exists_get?_of_contains known
  have found : (Target.type id).names? rt = some t.attributes := by simp [Target.names?, ht]
  have folded (added : Nat) : ((table.foldlM (Activity.addToType id) added).run rt).2.Placed := by
    clear found ht
    induction table generalizing rt added with
    | nil => exact placed
    | cons e rest ih =>
      have changes := (Activity.safe_addToType sound known added e).changes
      have here := placed.addToType sound known added e
      rw [List.foldlM_cons, run_bind]
      rcases hr : (Activity.addToType id added e).run rt with ⟨result, rt'⟩
      rw [hr] at here changes
      cases result with
      | error cause => exact here
      | ok added' =>
        exact ih here (sound.changes changes) (changes.grows.types.contains known) added'
  have run := Target.run_register found table
  change (Activity.addTableToType id table).run rt = _ at run
  rw [run]
  split
  · exact placed
  · exact folded 0

end Callables.Runtime
