import Callables.Proofs.Operations

namespace Callables

namespace Session

variable {s : Session}

def hasRoomFor (s : Session) (operation : Operation) : Bool :=
  operation.keepsTypes || s.runtime.types.created < Types.idLimit

/-- The sessions that steps lead to, as long as there are numbers left for new types. -/
inductive Reachable : Session → Prop
  | start (config : Config) (entries : Dict Entry) : Reachable (start config entries)
  | step {s : Session} (before : Reachable s) (operation : Operation)
      (room : s.hasRoomFor operation = true) (label : Option String) :
      Reachable (s.step operation label).2

theorem start_sound (config : Config) (entries : Dict Entry) : (start config entries).Sound := by
  refine ⟨⟨Types.initial_lawful, Types.initial_numbered, .refl _, ?_, ?_⟩, ?_⟩
  · intro r o ho
    simp [start, Runtime.start, Heap.get?, Heap.empty] at ho
  · intro id t ht
    have each : ∀ e ∈ Types.initial.entries, e.2.attributes.values = [] := by decide
    intro v hv
    rw [each _ (Registry.mem_of_get? ht)] at hv
    simp at hv
  · simp [start, Dict.values, Dict.empty]

/-- Settling a step is a release: the session refers to all that its types and names do. -/
theorem step_settle (s before : Session) : s.runtime.Step (s.settle before).runtime := by
  refine .release s.roots ?_ rfl rfl rfl
  intro id t ht v hv
  exact List.mem_append_right _ (List.mem_flatMap.mpr ⟨_, Registry.mem_of_get? ht, hv⟩)

theorem Sound.settle (hs : s.Sound) (before : Session) : (s.settle before).Sound := by
  refine ⟨hs.runtime.step (step_settle s before), ?_⟩
  intro v hv
  have used : v ∈ s.roots := List.mem_append_left _ hv
  have types : (s.settle before).runtime.types = s.runtime.types := rfl
  have heap : (s.settle before).runtime.heap = (s.runtime.heap.sweep s.roots).heap := rfl
  exact (Runtime.knows_release types heap (hs.kept v hv) (.inl used)).1

end Session

namespace Program

/-- A program that may also make new types. -/
structure Reaching (s : Session) (program : Program Outcome) : Prop where
  sound : (program.run s).2.Sound
  reaches : s.runtime.Reaches (program.run s).2.runtime
  value : ∀ a, (program.run s).1 = .ok a → Operation.Known (program.run s).2 a

variable {s : Session}

theorem Safe.reaching {program : Program Outcome} (h : Safe Operation.Known s program) :
    Reaching s program :=
  ⟨h.sound, h.changes.reaches, h.value⟩

theorem reaching_runtime {f : Runtime → Program Outcome} (h : Reaching s (f s.runtime)) :
    Reaching s (runtime >>= f) :=
  ⟨h.sound, h.reaches, h.value⟩

theorem Safe.reaching_bind {α : Type} {P : Session → α → Prop} {p : Program α}
    {f : α → Program Outcome} (h : Safe P s p)
    (hf : ∀ s' a, s'.Sound → s.runtime.Changes s'.runtime → P s' a → Reaching s' (f a)) :
    Reaching s (p >>= f) := by
  obtain ⟨sound, changes, value⟩ := h
  rcases hr : p.run s with ⟨result, s'⟩
  rw [hr] at sound changes value
  cases result with
  | error e =>
    have he : (p >>= f).run s = (.error e, s') := by rw [run_bind, hr]
    refine ⟨he ▸ sound, he ▸ changes.reaches, ?_⟩
    intro b hb
    rw [he] at hb
    cases hb
  | ok a =>
    have ho : (p >>= f).run s = (f a).run s' := by rw [run_bind, hr]
    have rest := hf s' a sound changes (value a rfl)
    exact ⟨ho ▸ rest.sound, ho ▸ changes.reaches.trans rest.reaches, ho ▸ rest.value⟩

theorem Reaching.settled {program : Program Outcome} (hs : s.Sound) (h : Reaching s program)
    (label : Option String) :
    (program.perform label Outcome.value? s).2.Sound ∧
      s.runtime.Reaches (program.perform label Outcome.value? s).2.runtime := by
  obtain ⟨sound, reaches, value⟩ := h
  rcases hr : program.run s with ⟨result, after⟩
  rw [hr] at sound reaches value
  have settle {t : Session} (ht : t.Sound) (ht' : s.runtime.Reaches t.runtime) :
      (t.settle s).Sound ∧ s.runtime.Reaches (t.settle s).runtime :=
    ⟨ht.settle s, ht'.tail (t.step_settle s)⟩
  unfold perform
  rw [hr]
  cases result with
  | error stop =>
    cases stop with
    | malformed => exact ⟨hs, .refl⟩
    | failed cause => exact settle sound reaches
  | ok outcome =>
    have known := value outcome rfl
    cases label with
    | none => exact settle sound reaches
    | some name =>
      cases hv : outcome.value? with
      | none => simpa [hv] using settle sound reaches
      | some v =>
        have hk : after.runtime.Knows v := known v (by simp [hv])
        have noted : after.runtime.Reaches (after.keep name v).runtime :=
          .single (.change (.quiet rfl rfl rfl))
        simpa [hv] using settle (sound.keep name hk) (reaches.trans noted)

end Program

namespace Operation

variable {s : Session}

theorem reaching_newType (hs : s.Sound) (room : s.runtime.types.created < Types.idLimit)
    (name : String) (bases : List Operand) : Program.Reaching s (newType name bases).run := by
  have read : Program.Safe (fun s ids => ∀ id ∈ ids, s.runtime.types.contains id = true) s
      (bases.mapM Program.readType) :=
    Program.safe_mapM (q := fun rt id => rt.types.contains id = true) hs
      (fun _ _ hs => Program.safe_readType hs _) fun grows => grows.types.contains
  apply read.reaching_bind
  intro s' ids hs' changes known
  refine Program.reaching_runtime ((safe_ofTypes hs' _).reaching_bind ?_)
  rintro s' ⟨id, types⟩ hs' _ ⟨rfl, made⟩
  have step : s'.runtime.Step { s'.runtime with types } :=
    .create name known (changes.created ▸ room) rfl made rfl
  have grows : s'.runtime.Grows { s'.runtime with types } :=
    hs'.runtime.grows_create (changes.created ▸ room) made rfl
  have here : Runtime.Knows { s'.runtime with types } (.type id) := by
    obtain ⟨_, _, _, _, rfl, rfl⟩ := Types.create_cases made
    exact Registry.contains_of_get? (Registry.get?_register_self ..)
  refine ⟨⟨hs'.runtime.step step, grows.knowsAll hs'.kept⟩, .single step, ?_⟩
  rintro _ ⟨⟩
  intro v hv
  obtain rfl := List.mem_singleton.mp hv
  exact here

theorem reaching_run (hs : s.Sound) (operation : Operation)
    (room : s.hasRoomFor operation = true) : Program.Reaching s operation.run := by
  cases operation with
  | newType name bases =>
    have left : s.runtime.types.created < Types.idLimit := by
      simpa [Session.hasRoomFor, keepsTypes] using room
    exact reaching_newType hs left name bases
  | _ => exact (safe_run hs _ rfl).reaching

end Operation

namespace Session

theorem Sound.step {s : Session} (hs : s.Sound) (operation : Operation)
    (room : s.hasRoomFor operation = true) (label : Option String) :
    (s.step operation label).2.Sound ∧ s.runtime.Reaches (s.step operation label).2.runtime :=
  (Operation.reaching_run hs operation room).settled hs label

theorem Reachable.sound {s : Session} (h : s.Reachable) : s.Sound := by
  induction h with
  | start config entries => exact start_sound config entries
  | step _ operation room label ih => exact (ih.step operation room label).1

def run (s : Session) (operations : List (Operation × Option String)) : Session :=
  operations.foldl (fun s o => (s.step o.1 o.2).2) s

def hasRoom (s : Session) : List (Operation × Option String) → Bool
  | [] => true
  | o :: rest => s.hasRoomFor o.1 && hasRoom (s.step o.1 o.2).2 rest

theorem Reachable.run {s : Session} (h : s.Reachable)
    {operations : List (Operation × Option String)} (room : s.hasRoom operations = true) :
    (s.run operations).Reachable := by
  induction operations generalizing s with
  | nil => exact h
  | cons o rest ih =>
    obtain ⟨here, later⟩ := Bool.and_eq_true_iff.mp room
    exact ih (h.step o.1 here o.2) later

/-- A class with a method, an object of the class, and the method bound to the object. -/
def enlisted : Session :=
  (start .standard .empty).run [
    (.newType "T" [], some "T"),
    (.define "m" ⟨"m", .fast, .record, .fast, none, false⟩, none),
    (.addTableToType (.kept "T") ["m"], none),
    (.newInstance (.kept "T"), some "t"),
    (.getAttribute (.kept "t") "m", some "bound")]

theorem enlisted_reachable : enlisted.Reachable :=
  (Reachable.start _ _).run (by decide +kernel)

end Session

namespace Runtime

/-- The runtimes that there are between the steps of a session and in the midst of one. -/
def Reachable (rt : Runtime) : Prop := ∃ s : Session, s.Reachable ∧ s.runtime.Reaches rt

theorem Reachable.sound {rt : Runtime} (h : rt.Reachable) : rt.Sound := by
  obtain ⟨s, hs, reaches⟩ := h
  exact hs.sound.runtime.reaches reaches

theorem Reachable.of_session {s : Session} (h : s.Reachable) : s.runtime.Reachable :=
  ⟨s, h, .refl⟩

theorem Reachable.reaches {rt rt' : Runtime} (h : rt.Reachable) (reaches : rt.Reaches rt') :
    rt'.Reachable := by
  obtain ⟨s, hs, before⟩ := h
  exact ⟨s, hs, before.trans reaches⟩

end Runtime
end Callables
