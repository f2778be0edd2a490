import Callables.Proofs.Merge
import Callables.Types

namespace Callables

/-- A type and what becomes of it: only flags are added, and attributes may change. -/
structure TypeInfo.Evolves (t t' : TypeInfo) : Prop where
  id : t'.id = t.id
  name : t'.name = t.name
  bases : t'.bases = t.bases
  ancestors : t'.ancestors = t.ancestors
  flags : ∀ flag, t.flags.has flag = true → t'.flags.has flag = true

namespace TypeInfo

theorem Evolves.refl (t : TypeInfo) : t.Evolves t := ⟨rfl, rfl, rfl, rfl, fun _ h => h⟩

theorem Evolves.trans {a b c : TypeInfo} (h : a.Evolves b) (h' : b.Evolves c) : a.Evolves c :=
  ⟨h'.id.trans h.id, h'.name.trans h.name, h'.bases.trans h.bases,
    h'.ancestors.trans h.ancestors, fun flag hf => h'.flags flag (h.flags flag hf)⟩

theorem Evolves.linearization {t t' : TypeInfo} (h : t.Evolves t') :
    t'.linearization = t.linearization := by
  simp [TypeInfo.linearization, h.id, h.ancestors]

/-- A registered type fits into the hierarchy. -/
structure Lawful (types : Types) (t : TypeInfo) : Prop where
  nodup : t.linearization.Nodup
  known : ∀ a ∈ t.linearization, types.contains a = true
  declared : t.bases.Sublist t.ancestors
  inherited : ∀ a ∈ t.ancestors, (types.info a).linearization.Sublist t.ancestors
  derived : ∀ a ∈ t.ancestors, ∃ b ∈ t.bases, a ∈ (types.info b).linearization
  rooted : t.linearization.getLast? = some .object

theorem Lawful.evolves {types : Types} {t t' : TypeInfo} (h : t.Lawful types)
    (he : t.Evolves t') : t'.Lawful types := by
  have hl := he.linearization
  refine ⟨hl ▸ h.nodup, hl ▸ h.known, ?_, ?_, ?_, hl ▸ h.rooted⟩
  · rw [he.bases, he.ancestors]; exact h.declared
  · rw [he.ancestors]; exact h.inherited
  · rw [he.bases, he.ancestors]; exact h.derived

end TypeInfo

namespace Types

def Grows (types types' : Types) : Prop :=
  ∀ ⦃id t⦄, types.get? id = some t → ∃ t', types'.get? id = some t' ∧ t.Evolves t'

theorem Grows.refl (types : Types) : types.Grows types := fun _ t h => ⟨t, h, .refl t⟩

theorem Grows.trans {a b c : Types} (h : a.Grows b) (h' : b.Grows c) : a.Grows c := by
  intro id t ht
  obtain ⟨t', ht', he⟩ := h ht
  obtain ⟨t'', ht'', he'⟩ := h' ht'
  exact ⟨t'', ht'', he.trans he'⟩

theorem Grows.contains {types types' : Types} (h : types.Grows types') {id : TypeId}
    (hc : types.contains id = true) : types'.contains id = true := by
  obtain ⟨t, ht⟩ := Registry.exists_get?_of_contains hc
  obtain ⟨t', ht', _⟩ := h ht
  exact Registry.contains_of_get? ht'

theorem info_of_get? {types : Types} {id : TypeId} {t : TypeInfo} (h : types.get? id = some t) :
    types.info id = t := by
  simp [info, h]

theorem Grows.info {types types' : Types} (h : types.Grows types') {id : TypeId}
    (hc : types.contains id = true) : (types.info id).Evolves (types'.info id) := by
  obtain ⟨t, ht⟩ := Registry.exists_get?_of_contains hc
  obtain ⟨t', ht', he⟩ := h ht
  rw [info_of_get? ht, info_of_get? ht']
  exact he

/-- A type fits into the hierarchy however the types around it evolve. -/
theorem Grows.lawful {types types' : Types} (grows : types.Grows types') {t : TypeInfo}
    (h : t.Lawful types) : t.Lawful types' := by
  have same {a} (ha : types.contains a = true) := (grows.info ha).linearization
  constructor
  case nodup => exact h.nodup
  case known => exact fun a ha => grows.contains (h.known a ha)
  case declared => exact h.declared
  case inherited =>
    intro a ha
    rw [same (h.known a (List.mem_cons_of_mem _ ha))]
    exact h.inherited a ha
  case derived =>
    intro a ha
    obtain ⟨b, hb, hab⟩ := h.derived a ha
    refine ⟨b, hb, ?_⟩
    rw [same (h.known b (List.mem_cons_of_mem _ (h.declared.subset hb)))]
    exact hab
  case rooted => exact h.rooted

/-- The hierarchy as it is registered. -/
structure Lawful (types : Types) : Prop where
  labelled : ∀ {id t}, types.get? id = some t → t.id = id
  root : types.contains .object = true
  each : ∀ {id t}, types.get? id = some t → t.Lawful types

namespace Lawful

variable {types : Types}

theorem info (lawful : types.Lawful) {id : TypeId} (hc : types.contains id = true) :
    (types.info id).id = id ∧ (types.info id).Lawful types := by
  obtain ⟨t, ht⟩ := Registry.exists_get?_of_contains hc
  rw [info_of_get? ht]
  exact ⟨lawful.labelled ht, lawful.each ht⟩

theorem linearization (lawful : types.Lawful) {id : TypeId} (hc : types.contains id = true) :
    (types.info id).linearization = id :: (types.info id).ancestors := by
  simp [TypeInfo.linearization, (lawful.info hc).1]

/-- The type of an unknown number is the root, so every type that `info` answers is registered. -/
theorem contains_info (lawful : types.Lawful) (id : TypeId) :
    types.contains (types.info id).id = true := by
  by_cases hc : types.contains id = true
  · rw [(lawful.info hc).1, hc]
  · have hn : types.get? id = none := by simpa [Registry.contains_eq_isSome] using hc
    have he : types.info id = types.info .object := by
      obtain ⟨t, ht⟩ := Registry.exists_get?_of_contains lawful.root
      simp [Types.info, hn, ht]
    rw [he, (lawful.info lawful.root).1]
    exact lawful.root

theorem known_ancestor (lawful : types.Lawful) {id a : TypeId} (hc : types.contains id = true)
    (ha : a ∈ (types.info id).ancestors) : types.contains a = true :=
  (lawful.info hc).2.known a (List.mem_cons_of_mem _ ha)

end Lawful

/-- Types that evolve without new ones among them stay lawful. -/
theorem Lawful.evolve {types types' : Types} (lawful : types.Lawful) (grows : types.Grows types')
    (old : ∀ {id t'}, types'.get? id = some t' → types.contains id = true) : types'.Lawful := by
  have same {id t'} (ht' : types'.get? id = some t') :
      ∃ t, types.get? id = some t ∧ t.Evolves t' := by
    obtain ⟨t, ht⟩ := Registry.exists_get?_of_contains (old ht')
    obtain ⟨t'', ht'', he⟩ := grows ht
    exact ⟨t, ht, Option.some.inj (ht''.symm.trans ht') ▸ he⟩
  refine ⟨?_, grows.contains lawful.root, ?_⟩
  · intro id t' ht'
    obtain ⟨t, ht, he⟩ := same ht'
    rw [he.id, lawful.labelled ht]
  · intro id t' ht'
    obtain ⟨t, ht, he⟩ := same ht'
    exact (grows.lawful (lawful.each ht)).evolves he

/-- Changing flags and attributes of a type: no flag is lost. -/
theorem grows_modify (types : Types) (id : TypeId) {f : TypeInfo → TypeInfo}
    (h : ∀ t : TypeInfo, t.Evolves (f t)) : types.Grows (types.modify id f) := by
  intro other t ht
  rw [Registry.get?_modify, ht]
  by_cases ho : other = id
  · exact ⟨f t, by simp [ho], h t⟩
  · exact ⟨t, by simp [ho], .refl t⟩

theorem get?_modify {types : Types} {id other : TypeId} {f : TypeInfo → TypeInfo} {t : TypeInfo}
    (h : (types.modify id f).get? other = some t) :
    ∃ t', types.get? other = some t' ∧ (t = t' ∨ t = f t') := by
  rw [Registry.get?_modify] at h
  split at h
  · obtain ⟨t', ht', he⟩ := Option.map_eq_some_iff.mp h
    exact ⟨t', ht', .inr he.symm⟩
  · exact ⟨t, h, .inl rfl⟩

theorem contains_of_get?_modify {types : Types} {id other : TypeId} {f : TypeInfo → TypeInfo}
    {t : TypeInfo} (h : (types.modify id f).get? other = some t) : types.contains other = true := by
  obtain ⟨t', ht', _⟩ := get?_modify h
  exact Registry.contains_of_get? ht'

theorem lawful_modify {types : Types} (lawful : types.Lawful) (id : TypeId)
    {f : TypeInfo → TypeInfo} (h : ∀ t : TypeInfo, t.Evolves (f t)) : Lawful (types.modify id f) :=
  lawful.evolve (grows_modify types id h) contains_of_get?_modify

theorem has_join (flags more : TypeFlags) {wanted : TypeFlags} (h : flags.has wanted = true) :
    (flags.join more).has wanted = true := by
  simp only [TypeFlags.has, bitsIn, TypeFlags.join, beq_iff_eq] at h ⊢
  rw [← UInt32.toBitVec_inj] at h ⊢
  simp only [UInt32.toBitVec_and, UInt32.toBitVec_or] at h ⊢
  ext i hi
  have hb := congrArg (·.getLsbD i) h
  simp only [BitVec.getLsbD_eq_getElem hi, BitVec.getElem_and, BitVec.getElem_or] at hb ⊢
  cases hw : wanted.bits.toBitVec[i] with
  | false => rw [Bool.and_false]
  | true =>
    rw [hw, Bool.and_true] at hb
    rw [hb, Bool.true_or, Bool.and_true]

theorem evolves_addFlags (flags : TypeFlags) (t : TypeInfo) :
    t.Evolves { t with flags := t.flags.join flags } :=
  ⟨rfl, rfl, rfl, rfl, fun _ h => has_join t.flags flags h⟩

theorem evolves_attributes (f : Dict Value → Dict Value) (t : TypeInfo) :
    t.Evolves { t with attributes := f t.attributes } :=
  ⟨rfl, rfl, rfl, rfl, fun _ h => h⟩

theorem grows_modifyAttributes (types : Types) (id : TypeId) (f : Dict Value → Dict Value) :
    types.Grows (types.modifyAttributes id f) :=
  grows_modify types id (evolves_attributes f)

theorem lawful_modifyAttributes {types : Types} (lawful : types.Lawful) (id : TypeId)
    (f : Dict Value → Dict Value) : Lawful (types.modifyAttributes id f) :=
  lawful_modify lawful id (evolves_attributes f)

theorem get?_modifyAttributes {types : Types} {id other : TypeId}
    {f : Dict Value → Dict Value} {t : TypeInfo}
    (h : (types.modifyAttributes id f).get? other = some t) :
    ∃ t', types.get? other = some t' ∧ (t = t' ∨ t = { t' with attributes := f t'.attributes }) :=
  get?_modify h

theorem addFlags_eq {types types' : Types} {id : TypeId} {flags : TypeFlags}
    (h : types.addFlags id flags = .ok types') :
    types' = types.modify id fun t => { t with flags := t.flags.join flags } := by
  unfold addFlags at h
  split at h
  · simp at h
  · exact (Except.ok.inj h).symm

theorem linearize_ok {types : Types} {bases ancestors : List TypeId}
    (h : types.linearize bases = .ok ancestors) :
    Linearization.merge ((bases.map fun b => (types.info b).linearization) ++ [bases]) =
      .ok ancestors := by
  unfold linearize at h
  split at h
  · rename_i hm
    simpa [hm] using h
  · simp at h

def newFlags (types : Types) (bases : List TypeId) : TypeFlags :=
  (TypeFlags.heapType.join .baseType).join
    (bases.foldl (fun flags b => flags.join ((types.info b).flags.meet .inherited)) TypeFlags.empty)

theorem create_cases {types types' : Types} {name : String} {bases : List TypeId} {id : TypeId}
    (h : types.create name bases = .ok (id, types')) :
    ∃ bases' ancestors : List TypeId,
      bases' = (if bases.isEmpty then [.object] else bases) ∧
      types.linearize bases' = .ok ancestors ∧
      id = types.nextId ∧
      types' = Registry.register { types with nextId := types.nextId.next } types.nextId
        { id := types.nextId, name, bases := bases', ancestors, flags := types.newFlags bases',
          attributes := Dict.empty } := by
  unfold create at h
  generalize hb : (if bases.isEmpty then [TypeId.object] else bases) = bases' at h
  simp only [bind, Except.bind, pure, Except.pure, throw, throwThe, MonadExceptOf.throw] at h
  split at h
  · simp at h
  · cases hl : types.linearize bases' with
    | error heads => simp [hl] at h
    | ok ancestors =>
      simp only [hl, Registry.allocate, Except.ok.injEq, Prod.mk.injEq] at h
      exact ⟨bases', ancestors, rfl, hl, h.1.symm, h.2.symm⟩

theorem get?_create {types : Types} (t : TypeInfo) (next id other : TypeId) :
    (Registry.register { types with nextId := next } id t).get? other =
      if other = id then some t else types.get? other := by
  by_cases ho : other = id
  · subst ho
    rw [if_pos rfl, Registry.get?_register_self]
  · rw [if_neg ho, Registry.get?_register_of_ne _ _ ho]
    rfl

theorem grows_create {types types' : Types} {name : String} {bases : List TypeId} {id : TypeId}
    (h : types.create name bases = .ok (id, types'))
    (fresh : types.contains types.nextId = false) : types.Grows types' := by
  obtain ⟨bases', ancestors, _, _, rfl, rfl⟩ := create_cases h
  intro other t ht
  have hne : other ≠ types.nextId := by
    rintro rfl
    simp [Registry.contains_of_get? ht] at fresh
  exact ⟨t, by rw [get?_create, if_neg hne, ht], .refl t⟩

/-- The bases stand in their order among the ancestors, each with all of its own, and the root
comes last because it ends the order of every base. -/
theorem lawful_ancestors {types : Types} (lawful : types.Lawful) {bases ancestors : List TypeId}
    (known : ∀ b ∈ bases, types.contains b = true) (nonempty : bases ≠ [])
    (h : types.linearize bases = .ok ancestors) :
    ancestors.Nodup ∧ (∀ a ∈ ancestors, types.contains a = true) ∧ bases.Sublist ancestors ∧
      (∀ a ∈ ancestors, (types.info a).linearization.Sublist ancestors) ∧
      (∀ a ∈ ancestors, ∃ b ∈ bases, a ∈ (types.info b).linearization) ∧
      ancestors.getLast? = some .object := by
  have hm := linearize_ok h
  have hlin {b} (hb : b ∈ bases) : (types.info b).linearization.Sublist ancestors :=
    Linearization.merge_sublist hm
      (List.mem_append_left _ (List.mem_map_of_mem (f := fun b => (types.info b).linearization) hb))
  have hbases : bases.Sublist ancestors := Linearization.merge_sublist hm (by simp)
  have origin {a} (ha : a ∈ ancestors) : ∃ b ∈ bases, a ∈ (types.info b).linearization := by
    obtain ⟨s, hs, has⟩ := Linearization.exists_mem_of_mem_merge hm ha
    rcases List.mem_append.mp hs with hs | hs
    · obtain ⟨b, hb, rfl⟩ := List.mem_map.mp hs
      exact ⟨b, hb, has⟩
    · have hab : a ∈ bases := by simpa [List.mem_singleton.mp hs] using has
      exact ⟨a, hab, by simp [lawful.linearization (known a hab)]⟩
  have hnodup := Linearization.merge_nodup hm
  refine ⟨hnodup, ?_, hbases, ?_, fun a ha => origin ha, ?_⟩
  · intro a ha
    obtain ⟨b, hb, hab⟩ := origin ha
    exact (lawful.info (known b hb)).2.known a hab
  · intro a ha
    obtain ⟨b, hb, hab⟩ := origin ha
    refine List.Sublist.trans ?_ (hlin hb)
    rw [lawful.linearization (known b hb)] at hab ⊢
    rcases List.mem_cons.mp hab with rfl | hab
    · have same := lawful.linearization (known a hb)
      exact same ▸ List.Sublist.refl _
    · exact ((lawful.info (known b hb)).2.inherited a hab).cons b
  · cases hl : ancestors.getLast? with
    | none =>
      have he := List.getLast?_eq_none_iff.mp hl
      exact absurd (List.sublist_nil.mp (he ▸ hbases)) nonempty
    | some z =>
      obtain ⟨b, hb, hz⟩ := origin (List.mem_of_getLast? hl)
      have hr := (lawful.info (known b hb)).2.rooted
      rw [Linearization.getLast_eq_of_sublist (hlin hb) hnodup hr hl hz]

/-- A type without declared bases is based on the root. -/
theorem bases_of_declared {types : Types} (lawful : types.Lawful) {bases : List TypeId}
    (known : ∀ b ∈ bases, types.contains b = true) :
    (∀ b ∈ if bases.isEmpty then [.object] else bases, types.contains b = true) ∧
      (if bases.isEmpty then [TypeId.object] else bases) ≠ [] := by
  cases bases with
  | nil => exact ⟨fun b hb => List.mem_singleton.mp hb ▸ lawful.root, List.cons_ne_nil _ _⟩
  | cons first rest => exact ⟨known, List.cons_ne_nil _ _⟩

theorem lawful_create {types types' : Types} (lawful : types.Lawful) {name : String}
    {bases : List TypeId} {id : TypeId} (known : ∀ b ∈ bases, types.contains b = true)
    (fresh : types.contains types.nextId = false)
    (h : types.create name bases = .ok (id, types')) : types'.Lawful := by
  have grows := grows_create h fresh
  obtain ⟨bases', ancestors, hb, hl, rfl, rfl⟩ := create_cases h
  obtain ⟨known', nonempty⟩ := bases_of_declared lawful known
  rw [← hb] at known' nonempty
  obtain ⟨hn, hk, hd, hi, ho, hr⟩ := lawful_ancestors lawful known' nonempty hl
  have same {a} (ha : types.contains a = true) := (grows.info ha).linearization
  have new : types.nextId ∉ ancestors := by
    intro hm
    simp [hk _ hm] at fresh
  -- the old types are as before, so only the new one is to be looked at
  refine ⟨?_, grows.contains lawful.root, ?_⟩
  · intro other t ht
    rw [get?_create] at ht
    split at ht
    · rename_i he
      exact he ▸ (Option.some.inj ht) ▸ rfl
    · exact lawful.labelled ht
  · intro other t ht
    rw [get?_create] at ht
    split at ht
    · obtain rfl := Option.some.inj ht
      constructor
      case nodup => exact List.nodup_cons.mpr ⟨new, hn⟩
      case known =>
        intro a ha
        rcases List.mem_cons.mp ha with rfl | ha
        · exact Registry.contains_of_get? (Registry.get?_register_self _ _ _)
        · exact grows.contains (hk a ha)
      case declared => exact hd
      case inherited =>
        intro a ha
        rw [same (hk a ha)]
        exact hi a ha
      case derived =>
        intro a ha
        obtain ⟨b, hb, hab⟩ := ho a ha
        exact ⟨b, hb, (same (known' b hb)).symm ▸ hab⟩
      case rooted => simp [TypeInfo.linearization, List.getLast?_cons, hr]
    · exact grows.lawful (lawful.each ht)

instance (types : Types) (t : TypeInfo) : Decidable (t.Lawful types) :=
  decidable_of_iff
    (t.linearization.Nodup ∧ (∀ a ∈ t.linearization, types.contains a = true) ∧
      t.bases.Sublist t.ancestors ∧
      (∀ a ∈ t.ancestors, (types.info a).linearization.Sublist t.ancestors) ∧
      (∀ a ∈ t.ancestors, ∃ b ∈ t.bases, a ∈ (types.info b).linearization) ∧
      t.linearization.getLast? = some .object)
    ⟨fun ⟨hn, hk, hd, hi, ho, hr⟩ => ⟨hn, hk, hd, hi, ho, hr⟩,
      fun ⟨hn, hk, hd, hi, ho, hr⟩ => ⟨hn, hk, hd, hi, ho, hr⟩⟩

theorem initial_lawful : initial.Lawful := by
  have mem {id t} (h : initial.get? id = some t) : t ∈ builtins ∧ t.id = id := by
    obtain ⟨u, hu, he⟩ := List.mem_map.mp (Registry.mem_of_get? h)
    obtain ⟨rfl, rfl⟩ := Prod.mk.inj he
    exact ⟨hu, rfl⟩
  have each : ∀ t ∈ builtins, t.Lawful initial := by decide
  exact ⟨fun h => (mem h).2, by decide, fun h => each _ (mem h).1⟩

theorem contains_builtinNamed {name : String} {id : TypeId} (h : builtinNamed? name = some id) :
    initial.contains id = true := by
  have each : ∀ t ∈ builtins, initial.contains t.id = true := by decide
  obtain ⟨t, ht, rfl⟩ := Option.map_eq_some_iff.mp h
  exact each t (List.mem_of_find?_eq_some ht)

def created (types : Types) : Nat := types.size - builtins.length

def idLimit : Nat := UInt32.size - 256

/-- Numbers are given out one after the other, and no number twice. -/
structure Numbered (types : Types) : Prop where
  builtin : builtins.length ≤ types.size
  bound : types.created ≤ idLimit
  next : types.nextId.raw.toNat = (256 + types.created) % UInt32.size
  below : ∀ id, types.contains id = true → id.raw.toNat < 256 + types.created

theorem initial_numbered : initial.Numbered := by
  refine ⟨by decide, by decide, by decide, ?_⟩
  have each : ∀ e ∈ initial.entries, e.1.raw.toNat < 256 := by decide
  intro id h
  obtain ⟨t, ht⟩ := Registry.exists_get?_of_contains h
  have hid : id.raw.toNat < 256 := each _ (Registry.mem_of_get? ht)
  omega

theorem Numbered.fresh {types : Types} (h : types.Numbered) (hl : types.created < idLimit) :
    types.contains types.nextId = false := by
  cases hc : types.contains types.nextId with
  | false => rfl
  | true =>
    have hb := h.below _ hc
    have hn := h.next
    unfold idLimit UInt32.size at hl
    unfold UInt32.size at hn
    omega

theorem Numbered.modify {types : Types} (h : types.Numbered) (id : TypeId)
    (f : TypeInfo → TypeInfo) : Numbered (types.modify id f) := by
  have hs : created (types.modify id f) = types.created := by
    simp [created]
  refine ⟨by simpa using h.builtin, hs ▸ h.bound, hs ▸ h.next, ?_⟩
  intro other hc
  obtain ⟨t, ht⟩ := Registry.exists_get?_of_contains hc
  exact hs ▸ h.below other (contains_of_get?_modify ht)

theorem Numbered.create {types types' : Types} (h : types.Numbered) {name : String}
    {bases : List TypeId} {id : TypeId} (hl : types.created < idLimit)
    (hc : types.create name bases = .ok (id, types')) :
    types'.Numbered ∧ types'.created = types.created + 1 := by
  have fresh := h.fresh hl
  obtain ⟨bases', ancestors, _, _, rfl, rfl⟩ := create_cases hc
  generalize ht : TypeInfo.mk types.nextId name bases' ancestors (types.newFlags bases')
    Dict.empty = t
  have hb := h.builtin
  have hn := h.next
  have hs : Registry.size (Registry.register { types with nextId := types.nextId.next }
      types.nextId t) = types.size + 1 := Registry.size_register_of_fresh t fresh
  have hc : created (Registry.register { types with nextId := types.nextId.next }
      types.nextId t) = types.created + 1 := by
    unfold created
    omega
  refine ⟨⟨by omega, by omega, ?_, ?_⟩, hc⟩
  · rw [Registry.nextId_register, hc]
    simp only [TypeId.next, UInt32.toNat_add, UInt32.toNat_one, UInt32.size] at hn ⊢
    omega
  · intro other ho
    obtain ⟨u, hu⟩ := Registry.exists_get?_of_contains ho
    rw [get?_create] at hu
    split at hu
    · rename_i he
      subst he
      unfold idLimit UInt32.size at hl
      unfold UInt32.size at hn
      omega
    · have := h.below other (Registry.contains_of_get? hu)
      omega

end Types
end Callables
