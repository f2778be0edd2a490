import Callables.Session
import Callables.Proofs.Creation
import Callables.Proofs.Execution
import Callables.Proofs.Reach

namespace Callables

namespace Session

structure Sound (s : Session) : Prop where
  runtime : s.runtime.Sound
  kept : s.runtime.KnowsAll s.kept.values

theorem Sound.with_runtime {s : Session} (h : s.Sound) {rt : Runtime} (sound : rt.Sound)
    (changes : s.runtime.Changes rt) : Sound { s with runtime := rt } :=
  ⟨sound, changes.grows.knowsAll h.kept⟩

end Session

namespace Program

variable {α β : Type}

/-- A program of good conduct: it changes the runtime only in known ways, keeps the session sound
also if it fails, and what it answers is as `P` says. -/
structure Safe (P : Session → α → Prop) (s : Session) (program : Program α) : Prop where
  sound : (program.run s).2.Sound
  changes : s.runtime.Changes (program.run s).2.runtime
  value : ∀ a, (program.run s).1 = .ok a → P (program.run s).2 a

variable {P : Session → α → Prop} {Q : Session → β → Prop} {s : Session}

theorem safe_pure (hs : s.Sound) {a : α} (ha : P s a) : Safe P s (pure a) :=
  ⟨hs, .refl, fun _ h => Except.ok.inj h ▸ ha⟩

theorem safe_throw (hs : s.Sound) (stop : Stop) : Safe P s (throw stop) :=
  ⟨hs, .refl, fun _ h => by cases h⟩

theorem Safe.bind {p : Program α} {f : α → Program β} (h : Safe P s p)
    (hf : ∀ s' a, s'.Sound → s.runtime.Changes s'.runtime → P s' a → Safe Q s' (f a)) :
    Safe Q s (p >>= f) := by
  obtain ⟨sound, changes, value⟩ := h
  rcases hr : p.run s with ⟨result, s'⟩
  rw [hr] at sound changes value
  cases result with
  | error e =>
    have he : (p >>= f).run s = (.error e, s') := by rw [run_bind, hr]
    refine ⟨he ▸ sound, he ▸ changes, ?_⟩
    intro b hb
    rw [he] at hb
    cases hb
  | ok a =>
    have ho : (p >>= f).run s = (f a).run s' := by rw [run_bind, hr]
    have rest := hf s' a sound changes (value a rfl)
    exact ⟨ho ▸ rest.sound, ho ▸ changes.trans rest.changes, ho ▸ rest.value⟩

theorem Safe.weaken {P' : Session → α → Prop} {p : Program α} (h : Safe P s p)
    (hp : ∀ s' a, s'.Sound → P s' a → P' s' a) : Safe P' s p :=
  ⟨h.sound, h.changes, fun a ha => hp _ a h.sound (h.value a ha)⟩

theorem safe_get {f : Session → Program β} (h : Safe Q s (f s)) : Safe Q s (get >>= f) :=
  ⟨h.sound, h.changes, h.value⟩

theorem safe_runtime {f : Runtime → Program β} (h : Safe Q s (f s.runtime)) :
    Safe Q s (runtime >>= f) :=
  ⟨h.sound, h.changes, h.value⟩

theorem safe_modify {f : Session → Session} (hs : (f s).Sound)
    (changes : s.runtime.Changes (f s).runtime) :
    Safe (fun s' _ => s' = f s) s (modify f) :=
  ⟨hs, changes, fun _ _ => rfl⟩

theorem safe_need (hs : s.Sound) (o : Option α) :
    Safe (fun s' a => s' = s ∧ o = some a) s (need o) := by
  cases o with
  | none => exact safe_throw hs .malformed
  | some a => exact safe_pure hs ⟨rfl, rfl⟩

theorem run_act (s : Session) (activity : Activity α) :
    (act activity).run s =
      ((activity.run s.runtime).1.mapError .failed,
        { s with runtime := (activity.run s.runtime).2 }) := rfl

theorem safe_act (hs : s.Sound) {P : Runtime → α → Prop} {activity : Activity α}
    (h : Activity.Safe P s.runtime activity) :
    Safe (fun s' a => P s'.runtime a) s (act activity) := by
  have sound := hs.runtime.changes h.changes
  have kept := hs.with_runtime sound h.changes
  refine ⟨run_act s activity ▸ kept, run_act s activity ▸ h.changes, ?_⟩
  rw [run_act]
  intro a ha
  cases hr : (activity.run s.runtime).1 with
  | error e =>
    rw [hr] at ha
    cases ha
  | ok b =>
    rw [hr] at ha
    obtain rfl := Except.ok.inj ha
    exact h.value b hr

abbrev Known (s : Session) (v : Value) : Prop := s.runtime.Knows v

abbrev KnownAll (s : Session) (values : List Value) : Prop := s.runtime.KnowsAll values

theorem safe_text (hs : s.Sound) (content : String) :
    Safe (fun _ _ => True) s (act (Activity.text content)) :=
  safe_act hs (Activity.safe_text content)

mutual

theorem safe_read {s : Session} (hs : s.Sound) :
    (operand : Operand) → Safe Known s (read operand)
  | .none => by
    simp only [read]
    exact safe_pure hs trivial
  | .bool b => by
    simp only [read]
    exact safe_pure hs trivial
  | .int i => by
    simp only [read]
    exact safe_pure hs trivial
  | .float x => by
    simp only [read]
    exact safe_pure hs trivial
  | .text content => by
    simp only [read]
    exact (safe_text hs content).bind fun s' _ hs' _ _ => safe_pure hs' trivial
  | .kept name => by
    simp only [read]
    refine safe_get ((safe_need hs _).weaken ?_)
    rintro _ v _ ⟨rfl, hv⟩
    exact hs.kept v (Dict.mem_values_of_get? hv)
  | .builtin name => by
    simp only [read]
    apply (safe_need hs _).bind
    rintro _ id hs' _ ⟨rfl, hi⟩
    exact safe_pure hs' (hs.runtime.contains_builtin (Types.contains_builtinNamed hi))
  | .tuple items => by
    simp only [read]
    apply (safe_readAll hs items).bind
    intro s' items hs' _ hi
    exact safe_act hs' (Activity.safe_tuple hi)
  | .dict pairs => by
    simp only [read]
    apply (safe_readPairs hs pairs).bind
    intro s' pairs hs' _ hp
    have hd : (Object.dict (.ofList pairs)).Sound s'.runtime :=
      .dict fun v hv => hp v (Dict.mem_values_ofList hv)
    exact (safe_act hs' (Activity.safe_allocate hd)).weaken fun _ _ _ h => h.1

theorem safe_readAll {s : Session} (hs : s.Sound) :
    (operands : List Operand) → Safe KnownAll s (readAll operands)
  | [] => by
    simp only [readAll]
    exact safe_pure hs (Runtime.knowsAll_nil _)
  | operand :: rest => by
    simp only [readAll]
    apply (safe_read hs operand).bind
    intro s₁ v hs₁ _ hv
    apply (safe_readAll hs₁ rest).bind
    intro s₂ vs hs₂ changes₂ hvs
    exact safe_pure hs₂ ((Runtime.knowsAll_cons ..).mpr ⟨changes₂.grows.knows hv, hvs⟩)

theorem safe_readPairs {s : Session} (hs : s.Sound) :
    (pairs : List (String × Operand)) →
      Safe (fun s pairs => s.runtime.KnowsAll (pairs.map Prod.snd)) s (readPairs pairs)
  | [] => by
    simp only [readPairs]
    exact safe_pure hs (Runtime.knowsAll_nil _)
  | (name, operand) :: rest => by
    simp only [readPairs]
    apply (safe_read hs operand).bind
    intro s₁ v hs₁ _ hv
    apply (safe_readPairs hs₁ rest).bind
    intro s₂ vs hs₂ changes₂ hvs
    exact safe_pure hs₂ ((Runtime.knowsAll_cons ..).mpr ⟨changes₂.grows.knows hv, hvs⟩)

end

theorem safe_readOptional (hs : s.Sound) (operand : Option Operand) :
    Safe (fun s v => s.runtime.KnowsAll v.toList) s (readOptional operand) := by
  cases operand with
  | none => exact safe_pure hs (by simp)
  | some operand =>
    apply (safe_read hs operand).bind
    intro s₁ v hs₁ _ hv
    apply safe_pure hs₁
    simpa using hv

theorem safe_readKeywords (hs : s.Sound) (keywords : List (String × Operand)) :
    Safe (fun s keywords => s.runtime.KnowsAll (Keywords.values keywords)) s
      (readKeywords keywords) := by
  induction keywords generalizing s with
  | nil => exact safe_pure hs (by simp [Keywords.values])
  | cons keyword rest ih =>
    apply (safe_text hs _).bind
    intro s₁ name hs₁ _ _
    apply (safe_read hs₁ _).bind
    intro s₂ v hs₂ _ hv
    apply (ih hs₂).bind
    intro s₃ vs hs₃ changes₃ hvs
    apply safe_pure hs₃
    exact (Runtime.knowsAll_cons ..).mpr ⟨changes₃.grows.knows hv, hvs⟩

theorem safe_readType (hs : s.Sound) (operand : Operand) :
    Safe (fun s id => s.runtime.types.contains id = true) s (readType operand) := by
  apply (safe_read hs operand).bind
  intro s₁ v hs₁ _ hv
  apply (safe_need hs₁ _).weaken
  rintro _ id _ ⟨rfl, hi⟩
  cases v with
  | type id' =>
    obtain rfl := Option.some.inj hi
    exact hv
  | none | bool | int | float | text | object => simp [Value.asType?] at hi

theorem safe_readOptionalType (hs : s.Sound) (operand : Option Operand) :
    Safe (fun s type => ∀ id, type = some id → s.runtime.types.contains id = true) s
      (readOptionalType operand) := by
  cases operand with
  | none => exact safe_pure hs (by simp)
  | some operand =>
    apply (safe_readType hs operand).bind
    intro s₁ id hs₁ _ hi
    apply safe_pure hs₁
    rintro _ ⟨⟩
    exact hi

theorem safe_readObject (hs : s.Sound) (view : Object → Option α) (operand : Operand) :
    Safe (fun s found => ∃ o, s.runtime.heap.get? found.1 = some o ∧ view o = some found.2) s
      (readObject view operand) := by
  apply (safe_read hs operand).bind
  intro s₁ v hs₁ _ hv
  split
  · rename_i r
    refine safe_runtime ((safe_need hs₁ _).bind ?_)
    rintro _ a hs₂ _ ⟨rfl, ha⟩
    apply safe_pure hs₂
    exact Option.bind_eq_some_iff.mp ha
  · exact safe_throw hs₁ _

theorem safe_throw_bind (hs : s.Sound) (stop : Stop) (f : α → Program β) :
    Safe Q s ((throw stop : Program α) >>= f) :=
  ⟨hs, .refl, fun _ h => by cases h⟩

theorem Safe.discard {p : Program α} (h : Safe P s p) :
    Safe (fun s' _ => ∃ a, P s' a) s (discard p) :=
  h.bind fun _ a hs' _ ha => safe_pure hs' ⟨a, ha⟩

theorem safe_mapM {γ : Type} {f : γ → Program α} {q : Runtime → α → Prop} {l : List γ}
    (hs : s.Sound) (h : ∀ s x, s.Sound → Safe (fun s a => q s.runtime a) s (f x))
    (lasts : ∀ {rt rt' : Runtime} {a}, rt.Grows rt' → q rt a → q rt' a) :
    Safe (fun s as => ∀ a ∈ as, q s.runtime a) s (l.mapM f) := by
  induction l generalizing s with
  | nil => exact safe_pure hs (by simp)
  | cons x rest ih =>
    rw [List.mapM_cons]
    apply (h s x hs).bind
    intro s₁ a hs₁ _ ha
    apply (ih hs₁).bind
    intro s₂ as hs₂ changes₂ has
    exact safe_pure hs₂ (List.forall_mem_cons.mpr ⟨lasts changes₂.grows ha, has⟩)

theorem safe_entry (hs : s.Sound) (label : String) : Safe (fun _ _ => True) s (entry label) :=
  safe_get ((safe_need hs _).weaken fun _ _ _ _ => trivial)

theorem safe_entries (hs : s.Sound) (labels : List String) :
    Safe (fun _ _ => True) s (labels.mapM entry) := by
  refine (safe_mapM (q := fun _ _ => True) hs ?_ fun _ _ => trivial).weaken fun _ _ _ _ => trivial
  intro s label hs
  exact safe_entry hs label

end Program

namespace Session.Sound

variable {s : Session}

theorem note (hs : s.Sound) (move : Move) : (s.note move).Sound :=
  hs.with_runtime (hs.runtime.change (.quiet rfl rfl rfl)) (.single (.quiet rfl rfl rfl))

theorem keep (hs : s.Sound) (name : String) {v : Value} (hv : s.runtime.Knows v) :
    (s.keep name v).Sound := by
  have hn := (hs.note (.take [v])).note (.letGo (s.kept.get? name).toList none)
  refine ⟨hn.runtime, ?_⟩
  intro u hu
  rcases Dict.mem_values_set hu with rfl | hu
  · cases u with
    | type | object | none | bool | int | float | text => exact hv
  · exact hn.kept u hu

theorem forget (hs : s.Sound) (name : String) : (s.forget name).Sound := by
  have hn := hs.note (.letGo (s.kept.get? name).toList none)
  exact ⟨hn.runtime, fun u hu => hn.kept u (Dict.mem_values_erase hu)⟩

end Session.Sound

end Callables
