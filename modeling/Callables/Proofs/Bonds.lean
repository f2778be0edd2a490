import Callables.Proofs.EditingObjects
import Callables.Proofs.Fixing

namespace Callables

/-- A piece of work. All that activities do to types and heap is made up of these. -/
inductive Piece
  | note (move : Move)
  | text
  | allocate (o : Object)
  | store (r : Ref) (old new : Object)
  | typeAttribute (id : TypeId) (name : String) (value : Value)

namespace Piece

def after : Piece → Runtime → Runtime
  | .note move, rt => { rt with ledger := rt.ledger.push move }
  | .text, rt => { rt with nextText := rt.nextText + 1 }
  | .allocate o, rt => { rt with heap := rt.heap.push o, ledger := rt.ledger.push (.create o) }
  | .store r old new, rt => rt.storing r old new
  | .typeAttribute id name value, rt =>
    { rt with types := rt.types.modifyAttributes id (·.set name value) }

def relocate (ρ : Relocation) : Piece → Piece
  | .note move => .note (ρ.move move)
  | .text => .text
  | .allocate o => .allocate (ρ.object o)
  | .store r old new => .store (ρ.place r) (ρ.object old) (ρ.object new)
  | .typeAttribute id name value => .typeAttribute id name (ρ.value value)

/-- What a piece of work has to be for the heap to stay in order, and, for those who mind, for the
runtime to stay sound. -/
def Fair (minds : Prop) (rt : Runtime) : Piece → Prop
  | .note _ | .text => True
  | .allocate o => o.New rt.heap ∧ (minds → o.Sound rt)
  | .store r old new => rt.heap.get? r = some old ∧ rt.heap.Edit .nobody (rt.heap.set r new) ∧
      (minds → old.Becomes new ∧ new.Sound rt)
  | .typeAttribute _ _ value => minds → rt.Knows value

variable {piece : Piece} {ρ : Relocation} {minds : Prop} {rt rt' : Runtime}

@[simp] theorem thread_after : (piece.after rt).thread = rt.thread := by
  cases piece <;> rfl

@[simp] theorem relocate_stay : piece.relocate .stay = piece := by
  cases piece with
  | store r old new => simp [relocate]; rfl
  | note | text | allocate | typeAttribute => simp [relocate]

theorem edits_after (fair : piece.Fair minds rt) : rt.Edits (piece.after rt) := by
  cases piece with
  | note move => exact ⟨.refl, .push rt move, .refl _⟩
  | text => exact ⟨.refl, .refl rt, .refl _⟩
  | allocate o =>
    exact ⟨.single (.push fair.1), .of_found [.create o] Array.toList_push
      (Heap.get?_push_of_some o), .refl _⟩
  | store r old new => exact ⟨.single fair.2.1, .storing fair.1 new, .refl _⟩
  | typeAttribute id name value =>
    exact ⟨.refl, .of_found [] (List.append_nil _).symm fun found => found,
      Types.grows_modifyAttributes ..⟩

theorem changes_after (fair : piece.Fair minds rt) (mind : minds) :
    rt.Changes (piece.after rt) := by
  cases piece with
  | note | text => exact .single (.quiet rfl rfl rfl)
  | allocate o => exact .single (.allocate o (fair.2 mind) rfl rfl rfl)
  | store r old new =>
    obtain ⟨found, -, sound⟩ := fair
    exact .single (.replace r old new found (sound mind).1 (sound mind).2 rfl rfl rfl)
  | typeAttribute id name value => exact .single (.setAttribute id name (fair mind) rfl rfl rfl)

theorem relocated_after (h : ρ.Relocated rt rt') (fair : piece.Fair minds rt) :
    ρ.Relocated (piece.after rt) ((piece.relocate ρ).after rt') := by
  cases piece with
  | note => exact { h with }
  | text => exact { h with nextText := congrArg (· + 1) h.nextText }
  | allocate o =>
    have next : ρ.place rt.heap.nextRef = rt'.heap.nextRef := h.next 0
    refine { h with heap := fun r => ?_, next := fun n => ?_ }
    · change (rt'.heap.push (ρ.object o)).get? (ρ.place r) =
        ((rt.heap.push o).get? r).map ρ.object
      simp only [Heap.get?_push, ← next, ρ.place_inj, h.heap]
      split <;> rfl
    · change ρ.place ((rt.heap.push o).nextRef + n) = (rt'.heap.push (ρ.object o)).nextRef + n
      simpa [Nat.add_assoc, Nat.add_comm 1 n] using h.next (n + 1)
  | store r old new =>
    have inside := Heap.lt_size_of_get? fair.1
    have inside' := Heap.lt_size_of_get? (by rw [h.heap, fair.1]; rfl)
    refine { h with heap := fun other => ?_, next := fun n => ?_ }
    · change (rt'.heap.set (ρ.place r) (ρ.object new)).get? (ρ.place other) =
        ((rt.heap.set r new).get? other).map ρ.object
      by_cases same : other = r
      · subst same
        rw [Heap.get?_set_self _ inside', Heap.get?_set_self _ inside]
        rfl
      · have apart : ρ.place other ≠ ρ.place r := fun he => same (ρ.place_inj.mp he)
        rw [Heap.get?_set_of_ne _ _ same, Heap.get?_set_of_ne _ _ apart, h.heap]
    · change ρ.place ((rt.heap.set r new).nextRef + n) =
        (rt'.heap.set (ρ.place r) (ρ.object new)).nextRef + n
      simpa using h.next n
  | typeAttribute id name value =>
    refine { h with types := fun other => ?_ }
    exact h.get?_modifyAttributes id other (f := (·.set name value))
      (g := (·.set name (ρ.value value))) fun d => Dict.set_map ..

end Piece

/-- What two runs beside each other keep: the states that match, up to the places of objects, and
where a pair of them leads. Of all that runs do only the pieces of work need be looked at. -/
structure Bond (ρ : Relocation) where
  Holds : Runtime × Runtime → Prop
  Leads : Runtime × Runtime → Runtime × Runtime → Prop
  /-- Whether it matters that runtimes are sound. -/
  minds : Prop
  refl : ∀ p, Leads p p
  trans : ∀ {p q r}, Leads p q → Leads q r → Leads p r
  relocated : ∀ {p}, Holds p → ρ.Relocated p.1 p.2
  sound : minds → ∀ {p}, Holds p → p.1.Sound
  grows : minds → ∀ {p q}, Leads p q → p.1.Grows q.1
  piece : ∀ {p} (piece : Piece), Holds p → piece.Fair minds p.1 →
    Holds (piece.after p.1, (piece.relocate ρ).after p.2) ∧
      Leads p (piece.after p.1, (piece.relocate ρ).after p.2)

namespace Bond

variable {ρ : Relocation} {α β γ δ : Type} {bond : Bond ρ} {p q : Runtime × Runtime}

def Knows (bond : Bond ρ) (p : Runtime × Runtime) (v : Value) : Prop := bond.minds → p.1.Knows v

def KnowsAll (bond : Bond ρ) (p : Runtime × Runtime) (values : List Value) : Prop :=
  bond.minds → p.1.KnowsAll values

abbrev Any : Runtime × Runtime → α → Prop := fun _ _ => True

structure Later (bond : Bond ρ) (p q : Runtime × Runtime) : Prop where
  holds : bond.Holds q
  leads : bond.Leads p q

/-- From a pair of states two activities go the same way: `g` is what becomes of an answer under
the relocation, and `P` says what it is. -/
structure Joins (bond : Bond ρ) (g : α → β) (P : Runtime × Runtime → α → Prop)
    (p : Runtime × Runtime) (a : Activity α) (b : Activity β) : Prop where
  result : (b.run p.2).1 = (a.run p.1).1.map g
  later : bond.Later p ((a.run p.1).2, (b.run p.2).2)
  value : ∀ v, (a.run p.1).1 = .ok v → P ((a.run p.1).2, (b.run p.2).2) v

theorem knowsAll_nil (bond : Bond ρ) (p : Runtime × Runtime) : bond.KnowsAll p [] :=
  fun _ => p.1.knowsAll_nil

theorem knowsAll_cons {v : Value} {values : List Value} :
    bond.KnowsAll p (v :: values) ↔ bond.Knows p v ∧ bond.KnowsAll p values := by
  simp only [KnowsAll, Knows, Runtime.knowsAll_cons, imp_and]

theorem knowsAll_append {values values' : List Value} :
    bond.KnowsAll p (values ++ values') ↔ bond.KnowsAll p values ∧ bond.KnowsAll p values' := by
  simp only [KnowsAll, Runtime.knowsAll_append, imp_and]

namespace Later

theorem refl (h : bond.Holds p) : bond.Later p p := ⟨h, bond.refl p⟩

theorem trans {r : Runtime × Runtime} (h : bond.Later p q) (h' : bond.Later q r) :
    bond.Later p r :=
  ⟨h'.holds, bond.trans h.leads h'.leads⟩

theorem knows (later : bond.Later p q) {v : Value} (h : bond.Knows p v) : bond.Knows q v :=
  fun mind => (bond.grows mind later.leads).knows (h mind)

theorem knowsAll (later : bond.Later p q) {values : List Value} (h : bond.KnowsAll p values) :
    bond.KnowsAll q values :=
  fun mind => (bond.grows mind later.leads).knowsAll (h mind)

end Later

theorem later_piece (h : bond.Holds p) (piece : Piece) (fair : piece.Fair bond.minds p.1) :
    bond.Later p (piece.after p.1, (piece.relocate ρ).after p.2) :=
  ⟨(bond.piece piece h fair).1, (bond.piece piece h fair).2⟩

section Rules

open Activity

variable {g : α → β} {k : γ → δ} {P : Runtime × Runtime → α → Prop}
  {Q : Runtime × Runtime → γ → Prop} {a : Activity α} {b : Activity β}

theorem Joins.of_run_eq {a' : Activity α} {b' : Activity β} (h : bond.Joins g P p a' b')
    (left : a.run p.1 = a'.run p.1) (right : b.run p.2 = b'.run p.2) : bond.Joins g P p a b := by
  obtain ⟨result, later, value⟩ := h
  rw [← left, ← right] at result later value
  exact ⟨result, later, value⟩

theorem joins_pure (h : bond.Holds p) {v : α} (known : P p v) :
    bond.Joins g P p (pure v) (pure (g v)) :=
  ⟨rfl, .refl h, fun _ ended => Except.ok.inj ended ▸ known⟩

theorem joins_throw (h : bond.Holds p) (e : CallError) : bond.Joins g P p (throw e) (throw e) :=
  ⟨rfl, .refl h, fun _ ended => nomatch ended⟩

theorem joins_ofExcept (h : bond.Holds p) {result : Except CallError α}
    (known : ∀ v, result = .ok v → P p v) :
    bond.Joins g P p (Activity.ofExcept result) (Activity.ofExcept (result.map g)) := by
  cases result with
  | ok v => exact joins_pure h (known v rfl)
  | error e => exact joins_throw h e

theorem Joins.bind {f : α → Activity γ} {f' : β → Activity δ} (h : bond.Joins g P p a b)
    (hf : ∀ v q, bond.Later p q → P q v → bond.Joins k Q q (f v) (f' (g v))) :
    bond.Joins k Q p (a >>= f) (b >>= f') := by
  obtain ⟨result, later, value⟩ := h
  rcases ha : a.run p.1 with ⟨ra, s⟩
  rcases hb : b.run p.2 with ⟨rb, s'⟩
  rw [ha, hb] at result later value
  obtain rfl : rb = ra.map g := result
  cases ra with
  | error e =>
    have left : (a >>= f).run p.1 = (.error e, s) := by rw [run_bind, ha]
    have right : (b >>= f').run p.2 = (.error e, s') := by rw [run_bind, hb]; rfl
    refine ⟨by rw [left, right]; rfl, by rw [left, right]; exact later, fun v ended => ?_⟩
    rw [left] at ended
    cases ended
  | ok v =>
    have left : (a >>= f).run p.1 = (f v).run s := by rw [run_bind, ha]
    have right : (b >>= f').run p.2 = (f' (g v)).run s' := by rw [run_bind, hb]; rfl
    obtain ⟨result', later', value'⟩ := hf v (s, s') later (value v rfl)
    refine ⟨?_, ?_, ?_⟩
    · rw [left, right]
      exact result'
    · rw [left, right]
      exact later.trans later'
    · rw [left, right]
      exact value'

theorem Joins.get {f : Runtime → Activity γ} {f' : Runtime → Activity δ}
    (h : bond.Joins k Q p (f p.1) (f' p.2)) :
    bond.Joins k Q p (MonadState.get >>= f) (MonadState.get >>= f') :=
  ⟨h.result, h.later, h.value⟩

theorem Joins.weaken {P' : Runtime × Runtime → α → Prop} (h : bond.Joins g P p a b)
    (weaker : ∀ q v, bond.Later p q → P q v → P' q v) : bond.Joins g P' p a b :=
  ⟨h.result, h.later, fun v ended => weaker _ v h.later (h.value v ended)⟩

theorem joins_note (h : bond.Holds p) (move : Move) :
    bond.Joins id Any p (note move) (note (ρ.move move)) :=
  ⟨rfl, later_piece h (.note move) trivial, fun _ _ => trivial⟩

theorem joins_take (h : bond.Holds p) (values : List Value) :
    bond.Joins id Any p (take values) (take (values.map ρ.value)) :=
  joins_note h (.take values)

theorem joins_letGo (h : bond.Holds p) (values : List Value) :
    bond.Joins id Any p (letGo values) (letGo (values.map ρ.value)) :=
  joins_note h (.letGo values none)

theorem joins_text (h : bond.Holds p) (content : String) :
    bond.Joins id Any p (text content) (text content) := by
  refine ⟨?_, later_piece h .text trivial, fun _ _ => trivial⟩
  change Except.ok (Text.mk p.2.nextText content) = _
  rw [(bond.relocated h).nextText]
  rfl

theorem joins_textValue (h : bond.Holds p) (content : String) :
    bond.Joins ρ.value bond.Knows p (do return Value.text (← text content))
      (do return Value.text (← text content)) :=
  (joins_text h content).bind fun t _ later _ =>
    joins_pure (v := Value.text t) later.holds fun _ => trivial

/-- A new object is at the next place on either side. -/
theorem joins_allocate (h : bond.Holds p) {o : Object} (new : o.New p.1.heap)
    (sound : bond.minds → o.Sound p.1) :
    bond.Joins ρ.value (fun q v => bond.Knows q v ∧ v = .object p.1.heap.nextRef ∧
      q.1.heap = p.1.heap.push o) p (allocate o) (allocate (ρ.object o)) := by
  refine ⟨?_, later_piece h (.allocate o) ⟨new, sound⟩, ?_⟩
  · have next : ρ.place p.1.heap.nextRef = p.2.heap.nextRef := (bond.relocated h).next 0
    change Except.ok (Value.object p.2.heap.nextRef) = _
    rw [← next]
    rfl
  · rintro _ ⟨⟩
    exact ⟨fun _ => ⟨o, (Heap.get?_push ..).trans (if_pos rfl)⟩, rfl, rfl⟩

theorem joins_tuple (h : bond.Holds p) (items : List Value) (known : bond.KnowsAll p items) :
    bond.Joins ρ.value bond.Knows p (tuple items) (tuple (items.map ρ.value)) :=
  (joins_allocate h (Object.new_plain rfl (by simp)) fun mind => .tuple (known mind)).weaken
    fun _ _ _ made => made.1

theorem joins_dict (h : bond.Holds p) {entries : Dict Value}
    (known : bond.KnowsAll p entries.values) :
    bond.Joins ρ.value bond.Knows p (allocate (.dict entries))
      (allocate (.dict (entries.map ρ.value))) :=
  (joins_allocate h (Object.new_plain rfl (by simp)) fun mind => .dict (known mind)).weaken
    fun _ _ _ made => made.1

theorem joins_store (h : bond.Holds p) {r : Ref} {old new : Object}
    (fair : (Piece.store r old new).Fair bond.minds p.1) :
    bond.Joins id Any p (store r new) (store (ρ.place r) (ρ.object new)) := by
  have found' : p.2.heap.get? (ρ.place r) = some (ρ.object old) := by
    rw [(bond.relocated h).heap, fair.1]
    rfl
  have left := run_store fair.1 new
  have right := run_store found' (ρ.object new)
  refine ⟨by rw [left, right]; rfl, ?_, fun _ _ => trivial⟩
  rw [left, right]
  exact later_piece h (.store r old new) fair

theorem joins_setTypeAttribute (h : bond.Holds p) (type : TypeId) (name : String) {value : Value}
    (known : bond.Knows p value) :
    bond.Joins id Any p (setTypeAttribute type name value)
      (setTypeAttribute type name (ρ.value value)) := by
  have old : ((p.2.types.info type).attributes.get? name).toList =
      (((p.1.types.info type).attributes.get? name).toList).map ρ.value := by
    rw [(bond.relocated h).info]
    simp only [Relocation.typeInfo, Dict.get?_map]
    cases (p.1.types.info type).attributes.get? name <;> rfl
  have set : bond.Joins id Any p
      (modify fun rt => { rt with types := rt.types.modifyAttributes type (·.set name value) })
      (modify fun rt =>
        { rt with types := rt.types.modifyAttributes type (·.set name (ρ.value value)) }) :=
    ⟨rfl, later_piece h (.typeAttribute type name value) known, fun _ _ => trivial⟩
  apply Joins.get
  dsimp only
  rw [old]
  apply set.bind
  intro _ _ later _
  exact (joins_take later.holds [value]).bind fun _ _ later _ => joins_letGo later.holds _

theorem Joins.observe (h : bond.Joins g P p a b) :
    bond.Joins (Except.map g) (fun q result => ∀ v, result = .ok v → P q v) p (observe a)
      (observe b) := by
  refine ⟨?_, h.later, ?_⟩
  · rw [run_observe, run_observe, h.result]
    rfl
  · rintro _ ⟨⟩ v ended
    exact h.value v ended

theorem Joins.orLetGo (h : bond.Joins g P p a b) (values : List Value) :
    bond.Joins g P p (orLetGo values a) (orLetGo (values.map ρ.value) b) := by
  apply h.observe.bind
  intro result q later known
  cases result with
  | ok v => exact joins_pure later.holds (known v rfl)
  | error e =>
    exact (joins_letGo later.holds values).bind fun _ _ later _ => joins_throw later.holds e

theorem Joins.releasing {a b : Activity Value} (h : bond.Joins ρ.value bond.Knows p a b)
    (values : List Value) :
    bond.Joins ρ.value bond.Knows p (releasing values a) (releasing (values.map ρ.value) b) := by
  apply (h.orLetGo values).bind
  intro v q later known
  exact (joins_note later.holds (.letGo values (some v))).bind fun _ _ later _ =>
    joins_pure later.holds (later.knows known)

theorem Joins.holding {a b : Activity Value} (h : bond.Holds p) (values : List Value)
    (hb : ∀ q, bond.Later p q → bond.Joins ρ.value bond.Knows q a b) :
    bond.Joins ρ.value bond.Knows p (holding values a) (holding (values.map ρ.value) b) :=
  (joins_take h values).bind fun _ q later _ => (hb q later).releasing values

theorem Joins.outcome {a b : Activity Value} (h : bond.Joins ρ.value bond.Knows p a b) :
    bond.Joins ρ.value bond.Knows p (outcome a) (outcome b) := by
  apply h.observe.bind
  intro result q later known
  cases result with
  | ok v =>
    apply (joins_text later.holds _).bind
    intro t q' later' _
    refine joins_tuple later'.holds [.text t, v] fun mind => ?_
    simp [later'.knows (known v rfl) mind]
  | error e =>
    apply (joins_text later.holds _).bind
    intro t _ later _
    apply (joins_text later.holds _).bind
    intro t' _ later _
    exact joins_tuple later.holds [.text t, .text t'] fun _ => by simp

theorem joins_mapM_option {x : Option γ} {m : γ → δ} {f : γ → Activity α} {f' : δ → Activity β}
    (h : bond.Holds p) (hf : ∀ y, x = some y → bond.Joins g P p (f y) (f' (m y))) :
    bond.Joins (Option.map g) (fun q result => ∀ v, result = some v → P q v) p (x.mapM f)
      ((x.map m).mapM f') := by
  cases x with
  | none => exact joins_pure (v := none) h (by simp)
  | some y =>
    refine (hf y rfl).bind fun v q later known => ?_
    exact joins_pure (v := some v) later.holds fun u hu => Option.some.inj hu ▸ known

theorem joins_mapM {l : List γ} {m : γ → δ} {f : γ → Activity Value} {f' : δ → Activity Value}
    (h : bond.Holds p) (hf : ∀ q, bond.Later p q → ∀ y ∈ l,
      bond.Joins ρ.value bond.Knows q (f y) (f' (m y))) :
    bond.Joins (List.map ρ.value) bond.KnowsAll p (l.mapM f) ((l.map m).mapM f') := by
  induction l generalizing p with
  | nil => exact joins_pure (v := []) h (bond.knowsAll_nil p)
  | cons y rest ih =>
    rw [List.map_cons, List.mapM_cons, List.mapM_cons]
    apply (hf p (.refl h) y List.mem_cons_self).bind
    intro v q later known
    refine (ih later.holds fun q' later' y hy =>
      hf q' (later.trans later') y (List.mem_cons_of_mem _ hy)).bind ?_
    intro vs q' later' all
    exact joins_pure (v := v :: vs) later'.holds (knowsAll_cons.mpr ⟨later'.knows known, all⟩)

end Rules

def lockstep (Holds : Runtime → Prop) (course : Course Runtime) (minds : Prop)
    (sound : minds → ∀ {rt}, Holds rt → rt.Sound)
    (grows : minds → ∀ {rt rt'}, course.Leads rt rt' → rt.Grows rt')
    (piece : ∀ {rt} (piece : Piece), Holds rt → piece.Fair minds rt →
      Holds (piece.after rt) ∧ course.Leads rt (piece.after rt)) : Bond .stay where
  Holds p := p.2 = p.1 ∧ Holds p.1
  Leads p q := course.Leads p.1 q.1
  minds := minds
  refl p := course.refl p.1
  trans := course.trans
  relocated := fun {p} h => by
    rw [h.1]
    exact Relocation.stay_relocated p.1
  sound mind _ h := sound mind h.2
  grows mind _ _ leads := grows mind leads
  piece := fun {p} work h fair => by
    rw [work.relocate_stay, h.1]
    obtain ⟨holds, leads⟩ := piece work h.2 fair
    exact ⟨⟨rfl, holds⟩, leads⟩

end Bond
end Callables
