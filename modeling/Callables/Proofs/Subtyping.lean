import Callables.Proofs.Sessions

namespace Callables

namespace Types

def HasBase (types : Types) (sub super : TypeId) : Prop := super ∈ (types.info sub).bases

variable {types : Types}

namespace Lawful

theorem known_base (lawful : types.Lawful) {id b : TypeId} (hc : types.contains id = true)
    (hb : types.HasBase id b) : types.contains b = true :=
  lawful.known_ancestor hc ((lawful.info hc).2.declared.subset hb)

theorem length_ancestors_lt (lawful : types.Lawful) {id a : TypeId}
    (hc : types.contains id = true) (ha : a ∈ (types.info id).ancestors) :
    (types.info a).ancestors.length < (types.info id).ancestors.length := by
  have hs := ((lawful.info hc).2.inherited a ha).length_le
  rw [lawful.linearization (lawful.known_ancestor hc ha)] at hs
  exact hs

theorem reached_of_mem_ancestors (lawful : types.Lawful) {id a : TypeId}
    (hc : types.contains id = true) (ha : a ∈ (types.info id).ancestors) :
    Relation.TransGen types.HasBase id a := by
  generalize hn : (types.info id).ancestors.length = n
  induction n using Nat.strongRecOn generalizing id with
  | ind n ih =>
    obtain ⟨b, hb, hab⟩ := (lawful.info hc).2.derived a ha
    have hkb := lawful.known_base hc hb
    rw [lawful.linearization hkb] at hab
    rcases List.mem_cons.mp hab with rfl | hab
    · exact .single hb
    · have hlt := lawful.length_ancestors_lt hc ((lawful.info hc).2.declared.subset hb)
      exact .head hb (ih _ (hn ▸ hlt) hkb hab rfl)

theorem mem_ancestors_of_reached (lawful : types.Lawful) {id a : TypeId}
    (hc : types.contains id = true) (h : Relation.TransGen types.HasBase id a) :
    a ∈ (types.info id).ancestors := by
  induction h using Relation.TransGen.head_induction_on with
  | single hb => exact (lawful.info hc).2.declared.subset hb
  | head hb _ ih =>
    have hm := (lawful.info hc).2.declared.subset hb
    have hkb := lawful.known_base hc hb
    have hs := (lawful.info hc).2.inherited _ hm
    rw [lawful.linearization hkb] at hs
    exact hs.subset (List.mem_cons_of_mem _ (ih hkb))

theorem mem_ancestors_iff (lawful : types.Lawful) {id a : TypeId}
    (hc : types.contains id = true) :
    a ∈ (types.info id).ancestors ↔ Relation.TransGen types.HasBase id a :=
  ⟨lawful.reached_of_mem_ancestors hc, lawful.mem_ancestors_of_reached hc⟩

theorem isSubtype_iff_mem (lawful : types.Lawful) {sub super : TypeId}
    (hc : types.contains sub = true) :
    types.isSubtype sub super = true ↔ super = sub ∨ super ∈ (types.info sub).ancestors := by
  simp only [isSubtype, TypeInfo.isSubtype, (lawful.info hc).1, Bool.or_eq_true, beq_iff_eq,
    List.contains_iff_mem]
  exact or_congr_left eq_comm

theorem isSubtype_iff (lawful : types.Lawful) {sub super : TypeId}
    (hc : types.contains sub = true) :
    types.isSubtype sub super = true ↔ Relation.ReflTransGen types.HasBase sub super := by
  rw [lawful.isSubtype_iff_mem hc, lawful.mem_ancestors_iff hc,
    Relation.reflTransGen_iff_eq_or_transGen]

/-- Two types are not ancestors of each other, since each would have fewer than the other. -/
theorem isSubtype_antisymm (lawful : types.Lawful) {a b : TypeId}
    (ha : types.contains a = true) (hb : types.contains b = true)
    (hab : types.isSubtype a b = true) (hba : types.isSubtype b a = true) : a = b := by
  rcases (lawful.isSubtype_iff_mem ha).mp hab with rfl | hab
  · rfl
  · rcases (lawful.isSubtype_iff_mem hb).mp hba with rfl | hba
    · rfl
    · have h₁ := lawful.length_ancestors_lt ha hab
      have h₂ := lawful.length_ancestors_lt hb hba
      omega

/-- The order of the ancestors ends with the root, which has none. -/
theorem ancestors_end (lawful : types.Lawful) {id : TypeId} (hc : types.contains id = true) :
    if id = .object then (types.info id).ancestors = []
    else (types.info id).ancestors.getLast? = some .object := by
  obtain ⟨hi, h⟩ := lawful.info hc
  have hr := h.rooted
  have hn := h.nodup
  rw [lawful.linearization hc] at hr hn
  cases ha : (types.info id).ancestors with
  | nil =>
    rw [ha] at hr
    simp only [List.getLast?_singleton, Option.some.injEq] at hr
    simp [hr]
  | cons a rest =>
    rw [ha, List.getLast?_cons_cons] at hr
    split
    · rename_i he
      subst he
      rw [ha] at hn
      exact absurd (List.mem_of_getLast? hr) (List.nodup_cons.mp hn).1
    · exact hr

end Lawful

/-- How the ancestors of a type stand to its bases, and subtypes to both. -/
structure Ordered (types : Types) (id : TypeId) : Prop where
  nodup : (types.info id).ancestors.Nodup
  proper : id ∉ (types.info id).ancestors
  reached : ∀ a, a ∈ (types.info id).ancestors ↔ Relation.TransGen types.HasBase id a
  declared : (types.info id).bases.Sublist (types.info id).ancestors
  rooted : if id = .object then (types.info id).ancestors = []
    else (types.info id).ancestors.getLast? = some .object
  inherited : ∀ a ∈ (types.info id).ancestors,
    (a :: (types.info a).ancestors).Sublist (types.info id).ancestors
  subtype : ∀ a, types.isSubtype id a = true ↔ Relation.ReflTransGen types.HasBase id a
  refl : types.isSubtype id id = true
  trans : ∀ a b, types.isSubtype id a = true → types.isSubtype a b = true →
    types.isSubtype id b = true
  antisymm : ∀ a, types.isSubtype id a = true → types.isSubtype a id = true → a = id

theorem Lawful.known_supertype (lawful : types.Lawful) {id a : TypeId}
    (hc : types.contains id = true) (ha : types.isSubtype id a = true) :
    types.contains a = true := by
  rcases (lawful.isSubtype_iff_mem hc).mp ha with rfl | ha
  · exact hc
  · exact lawful.known_ancestor hc ha

theorem Lawful.ordered (lawful : types.Lawful) {id : TypeId} (hc : types.contains id = true) :
    types.Ordered id := by
  obtain ⟨_, fits⟩ := lawful.info hc
  have nodup := fits.nodup
  rw [lawful.linearization hc, List.nodup_cons] at nodup
  constructor
  case nodup => exact nodup.2
  case proper => exact nodup.1
  case reached => exact fun a => lawful.mem_ancestors_iff hc
  case declared => exact fits.declared
  case rooted => exact lawful.ancestors_end hc
  case inherited =>
    intro a ha
    rw [← lawful.linearization (lawful.known_ancestor hc ha)]
    exact fits.inherited a ha
  case subtype => exact fun a => lawful.isSubtype_iff hc
  case refl => exact (lawful.isSubtype_iff hc).mpr .refl
  case trans =>
    intro a b ha hb
    have hb' := (lawful.isSubtype_iff (lawful.known_supertype hc ha)).mp hb
    exact (lawful.isSubtype_iff hc).mpr (((lawful.isSubtype_iff hc).mp ha).trans hb')
  case antisymm =>
    intro a ha hb
    exact lawful.isSubtype_antisymm (lawful.known_supertype hc ha) hc hb ha

end Types

namespace Runtime

/-- Whatever types a program makes, each stands in order. -/
theorem Reachable.hierarchy_ordered {rt : Runtime} (h : rt.Reachable) {id : TypeId}
    (hc : rt.types.contains id = true) : rt.types.Ordered id :=
  h.sound.lawful.ordered hc

/-- Two types of one base, and a type of both. -/
def diamond : Session :=
  (Session.start .standard .empty).run [
    (.newType "A" [], some "A"),
    (.newType "B" [.kept "A"], some "B"),
    (.newType "C" [.kept "A"], some "C"),
    (.newType "D" [.kept "B", .kept "C"], some "D")]

theorem ordered_diamond : diamond.runtime.types.contains ⟨259⟩ = true ∧
    diamond.runtime.types.Ordered ⟨259⟩ := by
  have reachable : diamond.Reachable := (Session.Reachable.start _ _).run (by decide +kernel)
  have known : diamond.runtime.types.contains ⟨259⟩ = true := by decide +kernel
  exact ⟨known, Reachable.hierarchy_ordered (.of_session reachable) known⟩

end Runtime
end Callables
