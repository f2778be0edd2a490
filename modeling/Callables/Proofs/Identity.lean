import Callables.Proofs.Referring
import Callables.Proofs.TypeSteps

namespace Callables

/-- A new type is one more entry, under the next number. -/
theorem Types.create_fresh {types types' : Types} {name : String} {bases : List TypeId}
    {id : TypeId} (made : types.create name bases = .ok (id, types'))
    (fresh : types.contains types.nextId = false) :
    id = types.nextId ∧ ∃ t : TypeInfo, types' = ⟨types.entries ++ [(id, t)], types.nextId.next⟩ ∧
      t.id = id ∧ t.name = name := by
  obtain ⟨bases', ancestors, -, -, rfl, rfl⟩ := create_cases made
  exact ⟨rfl, _, if_neg (Bool.eq_false_iff.mp fresh), rfl, rfl⟩

/-- Types, and how many numbers have been given out since the start. -/
structure Roster where
  types : Types
  given : Nat

namespace Roster

def start : Roster := ⟨.initial, 0⟩

/-- What happens to the types of a run, as long as there are numbers left. -/
inductive Step (r : Roster) : Roster → Prop
  | allocate (room : r.given < Types.idLimit) : Step r ⟨r.types.allocate.2, r.given + 1⟩
  | create (name : String) (bases : List TypeId) {id : TypeId} {types : Types}
      (room : r.given < Types.idLimit) (made : r.types.create name bases = .ok (id, types)) :
      Step r ⟨types, r.given + 1⟩
  | addFlags (id : TypeId) (flags : TypeFlags) {types : Types}
      (added : r.types.addFlags id flags = .ok types) : Step r ⟨types, r.given⟩
  | modifyAttributes (id : TypeId) (f : Dict Value → Dict Value) :
      Step r ⟨r.types.modifyAttributes id f, r.given⟩

abbrev Reaches : Roster → Roster → Prop := Relation.ReflTransGen Step

structure Sound (r : Roster) : Prop where
  distinct : r.types.Distinct
  labelled : ∀ {id t}, r.types.get? id = some t → t.id = id
  bound : r.given ≤ Types.idLimit
  next : r.types.nextId.raw.toNat = (256 + r.given) % UInt32.size
  below : ∀ {id}, r.types.contains id = true → id.raw.toNat < 256 + r.given
  builtin : ∀ {id}, r.types.contains id = true → id.isBuiltin = true →
    Types.initial.contains id = true

variable {r r' : Roster}

theorem sound_start : start.Sound := by
  have listed : ∀ e ∈ Types.initial.entries, e.2.id = e.1 ∧ e.1.raw.toNat < 256 := by decide
  refine ⟨?_, ?_, by decide, by decide, ?_, fun known _ => known⟩
  · unfold Registry.Distinct
    decide
  · exact fun found => (listed _ (Registry.mem_of_get? found)).1
  · intro id known
    obtain ⟨t, found⟩ := Registry.exists_get?_of_contains known
    exact Nat.lt_of_lt_of_le (listed _ (Registry.mem_of_get? found)).2 (Nat.le_add_right ..)

namespace Sound

/-- The next number is no builtin one and is not in use, as long as there are numbers left. -/
theorem fresh (h : r.Sound) (room : r.given < Types.idLimit) :
    r.types.contains r.types.nextId = false ∧ r.types.nextId.isBuiltin = false := by
  have next := h.next
  unfold Types.idLimit UInt32.size at room
  unfold UInt32.size at next
  constructor
  · refine Bool.eq_false_iff.mpr fun known => ?_
    have below := h.below known
    omega
  · simp only [TypeId.isBuiltin, decide_eq_false_iff_not, UInt32.lt_iff_toNat_lt]
    have first : TypeId.firstHeap.raw.toNat = 256 := rfl
    omega

/-- Changes of flags and attributes give out no number. -/
theorem modify (h : r.Sound) (id : TypeId) {f : TypeInfo → TypeInfo}
    (same : ∀ t : TypeInfo, (f t).id = t.id) : Sound ⟨r.types.modify id f, r.given⟩ := by
  have known {other : TypeId} (there : (r.types.modify id f).contains other = true) :
      r.types.contains other = true := by
    obtain ⟨t, found⟩ := Registry.exists_get?_of_contains there
    exact Types.contains_of_get?_modify found
  refine ⟨h.distinct.modify id f, ?_, h.bound, h.next, fun there => h.below (known there),
    fun there => h.builtin (known there)⟩
  intro other t found
  obtain ⟨t', found', rfl | rfl⟩ := Types.get?_modify found
  · exact h.labelled found'
  · exact (same t').trans (h.labelled found')

theorem allocate (h : r.Sound) (room : r.given < Types.idLimit) :
    Sound ⟨r.types.allocate.2, r.given + 1⟩ := by
  have next := h.next
  refine ⟨h.distinct, h.labelled, room, ?_, fun known => Nat.lt_succ_of_lt (h.below known),
    h.builtin⟩
  change r.types.nextId.next.raw.toNat = (256 + (r.given + 1)) % UInt32.size
  simp only [TypeId.next, UInt32.toNat_add, UInt32.toNat_one, UInt32.size] at next ⊢
  omega

/-- A type is registered under a number that has been given out. -/
theorem register (h : r.Sound) (t : TypeInfo) (used : t.id.raw.toNat < 256 + r.given)
    (heap : t.id.isBuiltin = false) : Sound ⟨r.types.register t.id t, r.given⟩ := by
  refine ⟨h.distinct.register _ _, ?_, h.bound, ?_, ?_, ?_⟩
  · intro other t' found
    by_cases same : other = t.id
    · subst same
      rw [Registry.get?_register_self] at found
      rw [← Option.some.inj found]
    · rw [Registry.get?_register_of_ne _ _ same] at found
      exact h.labelled found
  · rw [Registry.nextId_register]
    exact h.next
  · intro other known
    rcases Registry.contains_register known with rfl | known
    · exact used
    · exact h.below known
  · intro other known builtin
    rcases Registry.contains_register known with rfl | known
    · rw [heap] at builtin
      cases builtin
    · exact h.builtin known builtin

theorem create (h : r.Sound) (room : r.given < Types.idLimit) {name : String}
    {bases : List TypeId} {id : TypeId} {types : Types}
    (made : r.types.create name bases = .ok (id, types)) : Sound ⟨types, r.given + 1⟩ := by
  have used : r.types.nextId.raw.toNat < 256 + (r.given + 1) := by
    have next := h.next
    have smaller := Nat.mod_le (256 + r.given) UInt32.size
    omega
  obtain ⟨bases', ancestors, -, -, -, rfl⟩ := Types.create_cases made
  exact (h.allocate room).register { id := r.types.nextId, .. } used (h.fresh room).2

end Sound

theorem Step.sound (step : r.Step r') (h : r.Sound) : r'.Sound := by
  cases step with
  | allocate room => exact h.allocate room
  | create name bases room made => exact h.create room made
  | addFlags id flags added => exact Types.addFlags_eq added ▸ h.modify id fun _ => rfl
  | modifyAttributes id f => exact h.modify id fun _ => rfl

theorem Step.grows (step : r.Step r') (h : r.Sound) : r.types.Grows r'.types := by
  cases step with
  | allocate => exact .refl r.types
  | create name bases room made => exact Types.grows_create made (h.fresh room).1
  | addFlags id flags added =>
    exact Types.addFlags_eq added ▸ r.types.grows_modify id (Types.evolves_addFlags flags)
  | modifyAttributes id f => exact r.types.grows_modifyAttributes id f

theorem Reaches.sound (reaches : r.Reaches r') (h : r.Sound) : r'.Sound := by
  induction reaches with
  | refl => exact h
  | tail _ step ih => exact step.sound ih

theorem Reaches.grows (reaches : r.Reaches r') (h : r.Sound) : r.types.Grows r'.types := by
  induction reaches with
  | refl => exact .refl _
  | tail before step ih => exact ih.trans (step.grows (Reaches.sound before h))

end Roster

namespace Runtime

def roster (rt : Runtime) : Roster := ⟨rt.types, rt.types.created⟩

theorem Step.roster {rt rt' : Runtime} (step : rt.Step rt') (numbered : rt.types.Numbered) :
    rt.roster.Reaches rt'.roster := by
  have quiet (types : rt'.types = rt.types) : rt.roster.Reaches rt'.roster := by
    unfold Runtime.roster
    rw [types]
  cases step with
  | change change =>
    have created := change.created
    unfold Runtime.roster
    rw [created]
    cases change with
    | quiet _ types | allocate _ _ _ types | replace _ _ _ _ _ _ _ types =>
      rw [types]
    | setAttribute id _ _ _ types | eraseAttribute id _ _ types =>
      rw [types]
      exact .single (.modifyAttributes id _)
    | addFlags id flags _ types => exact .single (.addFlags id flags types)
  | create name known room _ types =>
    unfold Runtime.roster
    rw [(numbered.create room types).2]
    exact .single (.create name _ room types)
  | release _ _ _ types => exact quiet types

theorem Sound.roster {rt rt' : Runtime} (sound : rt.Sound) (reaches : rt.Reaches rt') :
    rt.roster.Reaches rt'.roster := by
  induction reaches with
  | refl => exact .refl
  | tail before step ih => exact ih.trans (step.roster (sound.reaches before).numbered)

end Runtime

theorem Session.Reachable.roster {s : Session} (h : s.Reachable) :
    Roster.start.Reaches s.runtime.roster := by
  induction h with
  | start config entries =>
    have none : Types.initial.created = 0 := by decide
    unfold Runtime.roster
    change Roster.Reaches _ ⟨.initial, Types.initial.created⟩
    rw [none]
    exact .refl
  | step before operation room label ih =>
    exact ih.trans (before.sound.runtime.roster (before.sound.step operation room label).2)

/-- The types of a run come about by giving out one number after the other. -/
theorem Runtime.Reachable.roster {rt : Runtime} (h : rt.Reachable) :
    Roster.start.Reaches rt.roster := by
  obtain ⟨s, hs, reaches⟩ := h
  exact hs.roster.trans (hs.sound.runtime.roster reaches)

namespace Roster

variable {r : Roster}

/-- Types are told apart by their numbers, now and later. -/
structure Identified (r : Roster) : Prop where
  distinct : (r.types.entries.map fun e => e.2.id).Nodup
  found : ∀ e ∈ r.types.entries, r.types.get? e.2.id = some e.2
  /-- Only the types that are there from the start have builtin numbers. -/
  builtin : ∀ e ∈ r.types.entries,
    e.2.id.isBuiltin = true ↔ Types.initial.contains e.2.id = true
  /-- Under the number of a type is that type for ever; only flags and attributes can change. -/
  lasting : ∀ r', r.Reaches r' → ∀ e ∈ r.types.entries,
    ∃ t, r'.types.get? e.2.id = some t ∧ e.2.Evolves t
  /-- If no type can be made, nothing has happened to the types, nor to the next number. -/
  refused : ∀ s : Session, s.runtime.types = r.types → ∀ name bases label stop,
    (s.step (.newType name bases) label).1 = .error stop →
      (s.step (.newType name bases) label).2.runtime.types = r.types
  /-- Otherwise there is one type more. -/
  made : r.given < Types.idLimit → ∀ s : Session, s.runtime.types = r.types →
    ∀ name bases label outcome, (s.step (.newType name bases) label).1 = .ok outcome →
      ∃ t : TypeInfo, outcome = .value (.type t.id) ∧ t.name = name ∧ t.id = r.types.nextId ∧
        r.types.contains t.id = false ∧ t.id.isBuiltin = false ∧
        (s.step (.newType name bases) label).2.runtime.types =
          ⟨r.types.entries ++ [(t.id, t)], t.id.next⟩

theorem Sound.tells_apart (h : r.Sound) : r.Identified := by
  have labelled : ∀ e ∈ r.types.entries, e.2.id = e.1 :=
    fun e there => h.labelled (h.distinct.get?_of_mem there)
  have found : ∀ e ∈ r.types.entries, r.types.get? e.2.id = some e.2 := by
    intro e there
    rw [labelled e there]
    exact h.distinct.get?_of_mem there
  constructor
  case distinct =>
    have same : (r.types.entries.map fun e => e.2.id) = r.types.entries.map Prod.fst :=
      List.map_congr_left labelled
    rw [same]
    exact h.distinct
  case found => exact found
  case builtin =>
    intro e there
    have low : ∀ e ∈ Types.initial.entries, e.1.isBuiltin = true := by decide
    refine ⟨fun builtin => h.builtin (Registry.contains_of_get? (found e there)) builtin, ?_⟩
    intro initial
    obtain ⟨t, ht⟩ := Registry.exists_get?_of_contains initial
    exact low _ (Registry.mem_of_get? ht)
  case lasting => exact fun r' later e there => later.grows h (found e there)
  case refused =>
    intro s same name bases label stop failed
    rcases read : (bases.mapM Program.readType).run s with ⟨unread | ids, s₁⟩
    · exact ((Session.ends_newType_of_unread read name).types label).trans same
    · have ends := Session.endsWith_newType read name
      cases made : s.runtime.types.create name ids with
      | error fault =>
        rw [made] at ends
        exact (Session.Ends.types ends label).trans same
      | ok new =>
        rw [made] at ends
        rw [Session.Ends.answer ends label] at failed
        cases failed
  case made =>
    intro room s same name bases label outcome done
    rcases read : (bases.mapM Program.readType).run s with ⟨unread | ids, s₁⟩
    · rw [(Session.ends_newType_of_unread read name).answer label] at done
      cases done
    · have ends := Session.endsWith_newType read name
      rw [same] at ends
      cases made : r.types.create name ids with
      | error fault =>
        rw [made] at ends
        rw [Session.Ends.answer ends label] at done
        cases done
      | ok new =>
        obtain ⟨id, types⟩ := new
        rw [made] at ends
        obtain ⟨fresh, heap⟩ := h.fresh room
        obtain ⟨rfl, t, rfl, same, named⟩ := Types.create_fresh made fresh
        refine ⟨t, ?_, named, same, same ▸ fresh, same ▸ heap, ?_⟩
        · rw [Session.Ends.answer ends label] at done
          rw [← Except.ok.inj done, same]
        · rw [Session.Ends.types ends label, same]

/-- A type is known by its number for ever. -/
theorem Reaches.identified (h : start.Reaches r) : r.Identified :=
  (Reaches.sound h sound_start).tells_apart

end Roster

namespace Session

/-- Three classes are made; a class whose bases disagree on their order is refused, and so is one
under the type of functions. -/
def naming : Session :=
  (start .standard .empty).run [
    (.newType "A" [], some "A"),
    (.newType "B" [.kept "A"], some "B"),
    (.newType "X" [.kept "A", .kept "B"], none),
    (.newType "F" [.builtin "function"], none),
    (.newType "C" [.kept "B"], some "C")]

theorem naming_reachable : naming.Reachable :=
  (Reachable.start _ _).run (by decide +kernel)

end Session

/-- Three numbers have been given out to classes. One more is given out for nothing, and what is
registered stays. -/
theorem Roster.identified_naming :
    (Session.naming.runtime.types.nextId, Session.naming.runtime.types.size) = (⟨259⟩, 21) ∧
      (Session.naming.runtime.types.entries.map fun e => e.2.id).Nodup ∧
      Roster.Identified ⟨Session.naming.runtime.types.allocate.2, 4⟩ := by
  have given : Session.naming.runtime.types.created = 3 := by decide +kernel
  have reached : start.Reaches ⟨Session.naming.runtime.types, 3⟩ :=
    given ▸ (Runtime.Reachable.of_session Session.naming_reachable).roster
  have allocated : start.Reaches ⟨Session.naming.runtime.types.allocate.2, 4⟩ :=
    reached.tail (.allocate (by decide))
  exact ⟨by decide +kernel, (Reaches.identified reached).distinct, Reaches.identified allocated⟩

end Callables
