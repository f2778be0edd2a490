import Callables.Proofs.Change

namespace Callables

/-- A run of two activities one after the other; the second needs the first to succeed. -/
theorem run_bind {ε σ α β : Type} (a : ExceptT ε (StateM σ) α) (f : α → ExceptT ε (StateM σ) β)
    (s : σ) :
    (a >>= f).run s =
      match a.run s with
      | (.ok v, s') => (f v).run s'
      | (.error e, s') => (.error e, s') := by
  have h : (a >>= f).run s = ExceptT.bindCont f (a.run s).1 (a.run s).2 := rfl
  rw [h]
  rcases a.run s with ⟨_ | _, _⟩ <;> rfl

namespace Activity

variable {α β : Type}

theorem run_get (f : Runtime → Activity β) (rt : Runtime) :
    (MonadState.get >>= f : Activity β).run rt = (f rt).run rt := rfl

theorem run_observe (body : Activity α) (rt : Runtime) :
    (observe body).run rt = (.ok (body.run rt).1, (body.run rt).2) := rfl

/-- Holding values only adds to the ledger, before and after. -/
theorem run_holding (values : List Value) (body : Activity Value) (rt : Runtime) :
    ∃ move, (holding values body).run rt =
      (let ran := body.run { rt with ledger := rt.ledger.push (.take values) }
       (ran.1, { ran.2 with ledger := ran.2.ledger.push move })) := by
  have taken : (take values).run rt =
      (.ok (), { rt with ledger := rt.ledger.push (.take values) }) := rfl
  rcases hr : body.run { rt with ledger := rt.ledger.push (.take values) } with ⟨ended, s⟩
  have observed : (observe body).run { rt with ledger := rt.ledger.push (.take values) } =
      (.ok ended, s) := by
    rw [run_observe, hr]
  unfold holding releasing orLetGo
  simp only [run_bind, taken, observed]
  cases ended with
  | error e => exact ⟨.letGo values none, rfl⟩
  | ok v => exact ⟨.letGo values (some v), rfl⟩

/-- Two activities that do the same in a state: they make only changes, and what they answer is as
`P` says. -/
structure Agree (P : Runtime → α → Prop) (rt : Runtime) (a b : Activity α) : Prop where
  same : b.run rt = a.run rt
  changes : rt.Changes (a.run rt).2
  value : ∀ v, (a.run rt).1 = .ok v → P (a.run rt).2 v

abbrev Safe (P : Runtime → α → Prop) (rt : Runtime) (a : Activity α) : Prop := Agree P rt a a

abbrev Any : Runtime → α → Prop := fun _ _ => True

variable {P : Runtime → α → Prop} {Q : Runtime → β → Prop} {rt : Runtime}

theorem Agree.weaken {P' : Runtime → α → Prop} {a b : Activity α} (h : Agree P rt a b)
    (hp : ∀ rt' v, rt.Changes rt' → P rt' v → P' rt' v) : Agree P' rt a b :=
  ⟨h.same, h.changes, fun v hv => hp _ v h.changes (h.value v hv)⟩

theorem safe_pure {v : α} (hv : P rt v) : Safe P rt (pure v) :=
  ⟨rfl, .refl, fun _ h => Except.ok.inj h ▸ hv⟩

theorem safe_throw (e : CallError) : Safe P rt (throw e) :=
  ⟨rfl, .refl, fun _ h => by cases h⟩

theorem safe_throw_bind (e : CallError) (f : α → Activity β) :
    Safe Q rt ((throw e : Activity α) >>= f) :=
  ⟨rfl, .refl, fun _ h => by cases h⟩

theorem safe_ofExcept {result : Except CallError α} (h : ∀ v, result = .ok v → P rt v) :
    Safe P rt (ofExcept result) := by
  cases result with
  | ok v => exact safe_pure (h v rfl)
  | error e => exact safe_throw e

theorem Agree.bind {a b : Activity α} {f g : α → Activity β} (h : Agree P rt a b)
    (hf : ∀ rt' v, rt.Changes rt' → P rt' v → Agree Q rt' (f v) (g v)) :
    Agree Q rt (a >>= f) (b >>= g) := by
  obtain ⟨same, changes, value⟩ := h
  rcases hr : a.run rt with ⟨result, rt'⟩
  rw [hr] at same changes value
  cases result with
  | error e =>
    have ha : (a >>= f).run rt = (.error e, rt') := by rw [run_bind, hr]
    have hb : (b >>= g).run rt = (.error e, rt') := by rw [run_bind, same]
    refine ⟨hb.trans ha.symm, ha ▸ changes, ?_⟩
    intro v hv
    rw [ha] at hv
    cases hv
  | ok v =>
    have ha : (a >>= f).run rt = (f v).run rt' := by rw [run_bind, hr]
    have hb : (b >>= g).run rt = (g v).run rt' := by rw [run_bind, same]
    have rest := hf rt' v changes (value v rfl)
    refine ⟨?_, ?_, ?_⟩
    · rw [ha, hb, rest.same]
    · rw [ha]
      exact changes.trans rest.changes
    · rw [ha]
      exact rest.value

theorem Agree.discard {a b : Activity α} (h : Agree P rt a b) :
    Agree (fun rt' _ => ∃ v, P rt' v) rt (discard a) (discard b) :=
  h.bind fun _ v _ hv => safe_pure ⟨v, hv⟩

theorem Agree.get {f g : Runtime → Activity β} (h : Agree Q rt (f rt) (g rt)) :
    Agree Q rt (MonadState.get >>= f) (MonadState.get >>= g) :=
  ⟨h.same, h.changes, h.value⟩

theorem safe_modify {f : Runtime → Runtime} (h : rt.Change (f rt)) : Safe Any rt (modify f) :=
  ⟨rfl, .single h, fun _ _ => trivial⟩

theorem safe_note (move : Move) : Safe Any rt (note move) :=
  safe_modify (.quiet rfl rfl rfl)

theorem safe_modifyThread (f : Thread → Thread) : Safe Any rt (modifyThread f) :=
  safe_modify (.quiet rfl rfl rfl)

theorem safe_text (content : String) : Safe Any rt (text content) :=
  ⟨rfl, .single (.quiet rfl rfl rfl), fun _ _ => trivial⟩

theorem safe_entryIdent : Safe Any rt entryIdent :=
  ⟨rfl, .single (.quiet rfl rfl rfl), fun _ _ => trivial⟩

theorem safe_allocate {o : Object} (ho : o.Sound rt) :
    Safe (fun rt' v => rt'.Knows v ∧ v = .object rt.heap.nextRef) rt (allocate o) := by
  refine ⟨rfl, .single (.allocate o ho rfl rfl rfl), ?_⟩
  rintro _ ⟨⟩
  exact ⟨⟨o, (Heap.get?_push ..).trans (if_pos rfl)⟩, rfl⟩

theorem safe_store {r : Ref} {old new : Object} (found : rt.heap.get? r = some old)
    (becomes : old.Becomes new) (sound : new.Sound rt) : Safe Any rt (store r new) := by
  apply Agree.get
  rw [found]
  exact (safe_modify (.replace r old new found becomes sound rfl rfl rfl)).bind
    fun _ _ _ _ => safe_note _

theorem Agree.observe {a b : Activity α} (h : Agree P rt a b) :
    Agree (fun rt' result => ∀ v, result = .ok v → P rt' v) rt (observe a) (observe b) := by
  refine ⟨?_, h.changes, ?_⟩
  · rw [run_observe, run_observe, h.same]
  · rintro _ ⟨⟩ v hv
    exact h.value v hv

theorem Agree.orLetGo {a b : Activity α} (values : List Value) (h : Agree P rt a b) :
    Agree P rt (orLetGo values a) (orLetGo values b) := by
  apply h.observe.bind
  intro rt' result _ hr
  cases result with
  | ok v => exact safe_pure (hr v rfl)
  | error e => exact (safe_note _).bind fun _ _ _ _ => safe_throw e

theorem Agree.releasing {a b : Activity Value} (values : List Value)
    (h : Agree Runtime.Knows rt a b) :
    Agree Runtime.Knows rt (releasing values a) (releasing values b) := by
  apply (h.orLetGo values).bind
  intro rt' v _ hv
  apply (safe_note _).bind
  intro rt'' _ changes _
  exact safe_pure (changes.grows.knows hv)

theorem Agree.holding {a b : Activity Value} (values : List Value)
    (h : ∀ rt', rt.Changes rt' → Agree Runtime.Knows rt' a b) :
    Agree Runtime.Knows rt (holding values a) (holding values b) :=
  (safe_note _).bind fun rt' _ changes _ => (h rt' changes).releasing values

theorem safe_tuple {items : List Value} (hi : rt.KnowsAll items) :
    Safe Runtime.Knows rt (tuple items) :=
  (safe_allocate (.tuple hi)).weaken fun _ _ _ h => h.1

end Activity
end Callables
