import Callables.Proofs.Conduct

namespace Callables

/-- Where a run may lead: a preorder of states. -/
structure Course (σ : Type) where
  Leads : σ → σ → Prop
  refl : ∀ s, Leads s s
  trans : ∀ {s s' s''}, Leads s s' → Leads s' s'' → Leads s s''

def Course.keeping {σ τ : Type} (part : σ → τ) : Course σ where
  Leads s s' := part s' = part s
  refl _ := rfl
  trans first second := second.trans first

def Course.both {σ : Type} (first second : Course σ) : Course σ where
  Leads s s' := first.Leads s s' ∧ second.Leads s s'
  refl s := ⟨first.refl s, second.refl s⟩
  trans h h' := ⟨first.trans h.1 h'.1, second.trans h.2 h'.2⟩

/-- An activity or a program that follows a course wherever it begins and however it ends. -/
def Follows {ε σ α : Type} (course : Course σ) (a : ExceptT ε (StateM σ) α) : Prop :=
  ∀ s, course.Leads s (a.run s).2

abbrev Keeps {ε σ τ α : Type} (part : σ → τ) (a : ExceptT ε (StateM σ) α) : Prop :=
  Follows (.keeping part) a

section Rules

variable {ε σ α β γ : Type} {course : Course σ}

theorem Follows.weaken {course' : Course σ} {a : ExceptT ε (StateM σ) α} (h : Follows course a)
    (weaker : ∀ {s s'}, course.Leads s s' → course'.Leads s s') : Follows course' a :=
  fun s => weaker (h s)

theorem follows_pure (v : α) : Follows course (pure v : ExceptT ε (StateM σ) α) :=
  fun s => course.refl s

theorem follows_throw (e : ε) : Follows course (throw e : ExceptT ε (StateM σ) α) :=
  fun s => course.refl s

theorem follows_throw_bind (e : ε) (f : α → ExceptT ε (StateM σ) β) :
    Follows course (throw e >>= f) :=
  fun s => course.refl s

/-- What begins on a course and is on it from where it gets is on it as a whole. -/
theorem leads_bind_of {a : ExceptT ε (StateM σ) α} {f : α → ExceptT ε (StateM σ) β} {s : σ}
    (first : course.Leads s (a.run s).2)
    (hf : ∀ v s', a.run s = (.ok v, s') → course.Leads s' ((f v).run s').2) :
    course.Leads s ((a >>= f).run s).2 := by
  rw [run_bind]
  rcases hr : a.run s with ⟨result, s'⟩
  rw [hr] at first
  cases result with
  | error e => exact first
  | ok v => exact course.trans first (hf v s' hr)

theorem leads_bind {a : ExceptT ε (StateM σ) α} {f : α → ExceptT ε (StateM σ) β} {s : σ}
    (first : course.Leads s (a.run s).2) (hf : ∀ v, Follows course (f v)) :
    course.Leads s ((a >>= f).run s).2 :=
  leads_bind_of first fun v s' _ => hf v s'

theorem Follows.bind {a : ExceptT ε (StateM σ) α} {f : α → ExceptT ε (StateM σ) β}
    (h : Follows course a) (hf : ∀ v, Follows course (f v)) : Follows course (a >>= f) :=
  fun s => leads_bind (h s) hf

theorem Follows.discard {a : ExceptT ε (StateM σ) α} (h : Follows course a) :
    Follows course (discard a) :=
  h.bind fun _ => follows_pure ()

theorem follows_get {f : σ → ExceptT ε (StateM σ) β} (h : ∀ s, Follows course (f s)) :
    Follows course (MonadState.get >>= f) :=
  fun s => h s s

theorem follows_modify {f : σ → σ} (h : ∀ s, course.Leads s (f s)) :
    Follows course (modify f : ExceptT ε (StateM σ) PUnit) :=
  h

theorem follows_mapM {f : γ → ExceptT ε (StateM σ) α} (h : ∀ x, Follows course (f x))
    (l : List γ) : Follows course (l.mapM f) := by
  induction l with
  | nil => exact follows_pure []
  | cons x rest ih =>
    rw [List.mapM_cons]
    exact (h x).bind fun v => ih.bind fun vs => follows_pure (v :: vs)

theorem follows_mapM_option {f : γ → ExceptT ε (StateM σ) α} (h : ∀ x, Follows course (f x))
    (x : Option γ) : Follows course (x.mapM f) := by
  cases x with
  | none => exact follows_pure none
  | some x => exact (h x).bind fun v => follows_pure (some v)

theorem follows_foldlM {f : β → γ → ExceptT ε (StateM σ) β} (h : ∀ v x, Follows course (f v x))
    (l : List γ) (v : β) : Follows course (l.foldlM f v) := by
  induction l generalizing v with
  | nil => exact follows_pure v
  | cons x rest ih =>
    rw [List.foldlM_cons]
    exact (h v x).bind ih

/-- What depends on a part only is left as it is with it. -/
theorem Keeps.part_of {τ υ : Type} {part : σ → τ} {a : ExceptT ε (StateM σ) α}
    (h : Keeps part a) (f : τ → υ) : Keeps (fun s => f (part s)) a :=
  fun s => congrArg f (h s)

end Rules

end Callables
