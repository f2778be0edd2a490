import Callables.Proofs.Subtyping

namespace Callables.Types

variable {types types' : Types} {id owner : TypeId} {name : String}

def own (types : Types) (id : TypeId) (name : String) : Option Value :=
  (types.info id).attributes.get? name

/-- The type to which a lookup resolves: the first one along the linearization that has the
attribute itself. -/
def definer? (types : Types) (id : TypeId) (name : String) : Option TypeId :=
  (types.info id).linearization.find? fun a => (types.own a name).isSome

def before (types : Types) (id owner : TypeId) : List TypeId :=
  (types.info id).linearization.takeWhile (· != owner)

def after (types : Types) (id owner : TypeId) : List TypeId :=
  ((types.info id).linearization.dropWhile (· != owner)).tail

/-- An attribute of `owner` would be seen from a type: it is a subtype, and no type before `owner`
in its linearization has the attribute itself. -/
def Sees (types : Types) (id owner : TypeId) (name : String) : Prop :=
  types.isSubtype id owner = true ∧ ∀ a ∈ types.before id owner, types.own a name = none

instance : Decidable (types.Sees id owner name) :=
  inferInstanceAs (Decidable (_ ∧ ∀ a ∈ types.before id owner, types.own a name = none))

theorem lookup_eq_definer (types : Types) (id : TypeId) (name : String) :
    types.lookup id name = (types.definer? id name).bind (types.own · name) := by
  unfold lookup definer?
  induction (types.info id).linearization with
  | nil => rfl
  | cons a rest ih =>
    change List.findSome? (fun t => types.own t name) (a :: rest) = _
    rw [List.findSome?_cons, List.find?_cons]
    cases ha : types.own a name with
    | none => simpa [own] using ih
    | some v => simp [ha]

theorem findSome?_congr {α β : Type} {f f' : α → Option β} {l : List α}
    (same : ∀ a ∈ l, f' a = f a) : l.findSome? f' = l.findSome? f := by
  induction l with
  | nil => rfl
  | cons a rest ih =>
    rw [List.findSome?_cons, List.findSome?_cons, same a (List.mem_cons_self ..),
      ih fun b hb => same b (List.mem_cons_of_mem _ hb)]

/-- One element of a search answers differently: the search notices if it gets as far as that
element, and then goes on after it if there is no answer any more. -/
theorem findSome?_update {α β : Type} [DecidableEq α] (f f' : α → Option β) (x : α)
    {l : List α} (others : ∀ a ∈ l, a ≠ x → f' a = f a) (nodup : l.Nodup) :
    l.findSome? f' =
      if x ∈ l ∧ ∀ a ∈ l.takeWhile (· != x), f a = none then
        f' x <|> (l.dropWhile (· != x)).tail.findSome? f
      else l.findSome? f := by
  induction l with
  | nil => simp
  | cons a rest ih =>
    obtain ⟨fresh, nodup⟩ := List.nodup_cons.mp nodup
    have later := ih (fun b hb => others b (List.mem_cons_of_mem _ hb)) nodup
    by_cases ha : a = x
    · subst ha
      have same : rest.findSome? f' = rest.findSome? f := by
        rw [later, if_neg (fun h => fresh h.1)]
      simp only [List.findSome?_cons, same, List.takeWhile_cons, List.dropWhile_cons]
      cases f' a <;> simp
    · rw [List.findSome?_cons, List.findSome?_cons, others a (List.mem_cons_self ..) ha]
      cases hf : f a with
      | some v => simp [ha, hf]
      | none =>
        dsimp only
        rw [later]
        simp [ha, hf, Ne.symm ha]

theorem own_modifyAttributes (f : Dict Value → Dict Value) (owner : TypeId) {a : TypeId}
    (known : types.contains a = true) (name : String) :
    (types.modifyAttributes owner f).own a name =
      if a = owner then (f (types.info a).attributes).get? name else types.own a name := by
  obtain ⟨t, ht⟩ := Registry.exists_get?_of_contains known
  unfold own info
  rw [modifyAttributes, Registry.get?_modify]
  split <;> simp [ht]

theorem Lawful.mem_linearization_iff (lawful : types.Lawful) (known : types.contains id = true) :
    owner ∈ (types.info id).linearization ↔ types.isSubtype id owner = true := by
  rw [lawful.linearization known, List.mem_cons, lawful.isSubtype_iff_mem known]

theorem Lawful.sees_iff (lawful : types.Lawful) (known : types.contains id = true)
    (owner : TypeId) (name : String) :
    types.Sees id owner name ↔ owner ∈ (types.info id).linearization ∧
      ∀ a ∈ (types.info id).linearization.takeWhile (· != owner), types.own a name = none := by
  rw [Sees, ← lawful.mem_linearization_iff known]
  rfl

/-- A lookup that gets as far as a type goes on after it if the type has no such attribute. -/
theorem Lawful.lookup_of_sees (lawful : types.Lawful) (known : types.contains id = true)
    (sees : types.Sees id owner name) :
    types.lookup id name = (types.own owner name <|>
      (types.after id owner).findSome? (types.own · name)) := by
  have search := findSome?_update (types.own · name) (types.own · name) owner
    (fun _ _ _ => rfl) (lawful.info known).2.nodup
  rw [if_pos ((lawful.sees_iff known owner name).mp sees)] at search
  exact search

/-- How lookups change with the attributes of one type. Only those of the name that is changed
do, and only on the types that see an attribute of the changed type. -/
theorem Lawful.lookup_modifyAttributes (lawful : types.Lawful) (known : types.contains id = true)
    {f : Dict Value → Dict Value} {name : String}
    (others : ∀ d m, m ≠ name → (f d).get? m = d.get? m) (owner : TypeId) :
    (∀ m, m ≠ name → (types.modifyAttributes owner f).lookup id m = types.lookup id m) ∧
      (types.Sees id owner name → (types.modifyAttributes owner f).lookup id name =
        ((f (types.info owner).attributes).get? name <|>
          (types.after id owner).findSome? (types.own · name))) ∧
      (¬ types.Sees id owner name →
        (types.modifyAttributes owner f).lookup id name = types.lookup id name) := by
  have linearization := ((grows_modifyAttributes types owner f).info known).linearization
  have here {a : TypeId} (ha : a ∈ (types.info id).linearization) :
      types.contains a = true := (lawful.info known).2.known a ha
  have lookup (m : String) : (types.modifyAttributes owner f).lookup id m =
      (types.info id).linearization.findSome? ((types.modifyAttributes owner f).own · m) := by
    unfold Types.lookup
    rw [linearization]
    rfl
  have updated := findSome?_update (types.own · name)
    ((types.modifyAttributes owner f).own · name) owner
    (fun a ha other => by rw [own_modifyAttributes f owner (here ha), if_neg other])
    (lawful.info known).2.nodup
  have sees := lawful.sees_iff known owner name
  refine ⟨fun m other => ?_, fun seen => ?_, fun unseen => ?_⟩
  · rw [lookup]
    unfold Types.lookup
    refine findSome?_congr fun a ha => ?_
    rw [own_modifyAttributes f owner (here ha), others _ m other]
    exact ite_self _
  · rw [lookup, updated, if_pos (sees.mp seen), own_modifyAttributes f owner, if_pos rfl]
    · rfl
    · exact here (sees.mp seen).1
  · rw [lookup, updated, if_neg (fun h => unseen (sees.mpr h))]
    rfl

theorem takeWhile_ne {α : Type} [DecidableEq α] {first rest : List α} {x : α}
    (fresh : x ∉ first) : (first ++ x :: rest).takeWhile (· != x) = first := by
  have other : ∀ a ∈ first, (a != x) = true := by
    intro a ha
    rw [bne_iff_ne]
    rintro rfl
    exact fresh ha
  rw [List.takeWhile_append_of_pos other]
  simp

/-- A lookup resolves to the type that is seen and has the attribute. -/
theorem Lawful.definer?_eq_some_iff (lawful : types.Lawful) (known : types.contains id = true) :
    types.definer? id name = some owner ↔
      types.Sees id owner name ∧ (types.own owner name).isSome = true := by
  rw [Sees, ← lawful.mem_linearization_iff known, definer?, List.find?_eq_some_iff_append]
  unfold before
  constructor
  · rintro ⟨has, first, rest, split, passed⟩
    have none (a : TypeId) (ha : a ∈ first) : types.own a name = none := by
      simpa using passed a ha
    have fresh : owner ∉ first := fun ho => by simp [none owner ho] at has
    rw [split, takeWhile_ne fresh]
    exact ⟨⟨by simp, none⟩, has⟩
  · rintro ⟨⟨mem, passed⟩, has⟩
    obtain ⟨first, rest, split, fresh⟩ := List.eq_append_cons_of_mem mem
    rw [split, takeWhile_ne fresh] at passed
    exact ⟨has, first, rest, split, fun a ha => by simp [passed a ha]⟩

/-- A type hides what its proper supertypes have: it stands before them. -/
theorem Lawful.hidden (lawful : types.Lawful) (known : types.contains id = true) {a d : TypeId}
    (defines : (types.own d name).isSome = true) (other : d ≠ a)
    (between : d = id ∨ d ∈ (types.info id).ancestors ∧ types.isSubtype d a = true) :
    types.definer? id name ≠ some a := by
  have linear := lawful.linearization known
  have nodup := (lawful.info known).2.nodup
  rcases between with rfl | ⟨ancestor, sub⟩
  · rw [definer?, linear, List.find?_cons, defines]
    simpa using other
  · intro resolved
    obtain ⟨-, first, rest, split, passed⟩ := List.find?_eq_some_iff_append.mp resolved
    have hd : d ∉ first := by
      intro h
      have := passed d h
      simp [defines] at this
    -- `a` comes after `d` in the linearization, as it does in that of `d`
    have order : [d, a].Sublist (types.info id).linearization := by
      have below : a ∈ (types.info d).ancestors :=
        ((lawful.isSubtype_iff_mem (lawful.known_ancestor known ancestor)).mp sub).resolve_left
          (Ne.symm other)
      have inherited := (lawful.info known).2.inherited d ancestor
      rw [lawful.linearization (lawful.known_ancestor known ancestor)] at inherited
      rw [linear]
      exact ((List.singleton_sublist.mpr below).cons_cons d).trans
        (inherited.trans (List.sublist_cons_self ..))
    rw [split] at order nodup
    obtain ⟨left, right, pair, inFirst, inRest⟩ := List.sublist_append_iff.mp order
    cases left with
    | cons x l =>
      obtain ⟨rfl, -⟩ := List.cons.inj pair
      exact hd (inFirst.subset (List.mem_cons_self ..))
    | nil =>
      obtain rfl : right = [d, a] := pair.symm
      have later : [d, a].Sublist rest := by
        cases inRest with
        | cons _ h => exact h
        | cons_cons _ _ => exact absurd rfl other
      exact (List.nodup_cons.mp (List.nodup_append.mp nodup).2.1).1
        (later.subset (by simp))

end Callables.Types
