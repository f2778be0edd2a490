import Callables.Proofs.Orderly
import Callables.Proofs.Registration
import Callables.Proofs.Recording

namespace Callables

namespace Entry

variable {e : Entry}

theorem badCallFlags_of_validate {cause : CallError} (invalid : e.validate = .error cause) :
    cause = .badCallFlags e.name e.flags.bits := by
  unfold validate at invalid
  split at invalid
  · cases invalid
  · exact (Except.error.inj invalid).symm

theorem ofFlags?_of_validate {c : Convention} (valid : e.validate = .ok c) :
    Convention.ofFlags? e.flags = some e.convention := by
  unfold validate at valid
  split at valid
  · assumption
  · cases valid

theorem validate_boundMethod : boundMethod.validate = .ok .fastKeywords := by decide

end Entry

namespace Runtime

variable {rt : Runtime} {v : Value} {f : Function} {args : List Value} {keywords : Keywords}

def rejecting (rt : Runtime) : Runtime :=
  { rt with thread := { rt.thread with counts := rt.thread.counts.reject } }

def checking (rt : Runtime) : Runtime :=
  { rt with config := { rt.config with checkFlags := true } }

/-- No dispatch of a callable is itself refused for flags. -/
def Admits (rt : Runtime) (v : Value) (f : Function) : Prop :=
  ∀ args keywords name bits, rt.deliver v f args keywords ≠ .error (.badCallFlags name bits)

/-- Every dispatch of a callable that passes the receiver check ends with the error and before the
entry point: all that happens is that the refusal is counted. -/
def Refuses (rt : Runtime) (v : Value) (f : Function) (cause : CallError) : Prop :=
  ∀ args keywords, rt.checkReceiver f args = .ok () → ∀ call : Option Callee,
    (Activity.dispatchWith call v f args keywords).run rt = (.error cause, rt.rejecting)

theorem checkReceiver_ne_badCallFlags (name : String) (bits : UInt32) :
    rt.checkReceiver f args ≠ .error (.badCallFlags name bits) := by
  unfold checkReceiver
  split
  · cases args with
    | nil => simp
    | cons first rest =>
      simp only [checkSelf]
      split <;> simp
  · simp

theorem make_ne_badCallFlags (entry : String) (lead : Value) (c : Convention) (name : String)
    (bits : UInt32) :
    Delivery.make entry lead args keywords c ≠ .error (.badCallFlags name bits) := by
  unfold Delivery.make
  split
  · simp
  · cases c with
    | noArgs => split <;> simp
    | single =>
      match args with
      | [] | [_] | _ :: _ :: _ => simp
    | varArgs | varArgsKeywords | fast | fastKeywords => simp

/-- Neither the receiver nor the arguments are refused in the way flags are. -/
theorem validate_of_deliver {name : String} {bits : UInt32}
    (refused : rt.deliver v f args keywords = .error (.badCallFlags name bits)) :
    f.entry.validate = .error (.badCallFlags name bits) := by
  -- receiver, flags and arguments are looked at in this order
  rw [deliver_eq, accept_eq] at refused
  split at refused
  · rename_i received
    obtain rfl := Except.error.inj refused
    exact absurd received (checkReceiver_ne_badCallFlags name bits)
  · split at refused
    · rename_i invalid
      obtain rfl := Except.error.inj refused
      exact invalid
    · exact absurd refused (make_ne_badCallFlags _ _ _ name bits)

theorem admits_of_valid {c : Convention} (valid : f.entry.validate = .ok c) : rt.Admits v f := by
  intro args keywords name bits refused
  rw [validate_of_deliver refused] at valid
  cases valid

theorem refuses_of_invalid {cause : CallError} (invalid : f.entry.validate = .error cause) :
    rt.Refuses v f cause := by
  intro args keywords received call
  have refused : rt.deliver v f args keywords = .error cause := by
    rw [deliver_eq, received, accept_eq, invalid]
  exact Activity.run_dispatchWith_refused refused call

/-- An entry point is handed arguments only by the convention that it is written for. -/
theorem ofFlags?_of_deliver {delivery : Delivery f.entry.convention}
    (accepted : rt.deliver v f args keywords = .ok delivery) :
    Convention.ofFlags? f.entry.flags = some f.entry.convention := by
  rw [deliver_eq, accept_eq] at accepted
  split at accepted
  · cases accepted
  · split at accepted
    · cases accepted
    · rename_i valid
      exact Entry.ofFlags?_of_validate valid

theorem wrapped_of_bindMethod {rt' : Runtime} {callable receiver w : Value}
    (made : (Activity.bindMethod callable receiver).run rt = (.ok w, rt')) :
    ∃ g, rt'.heap.function? w = some g ∧ g.wrapped? = some callable := by
  obtain ⟨g, hw, there, -⟩ := exists_wrapper_of_bindMethod made
  refine ⟨g, there, ?_⟩
  rcases wrapper_cases hw with ⟨_, rfl, _⟩ | ⟨_, _, _, _, rfl⟩ <;> rfl

/-- What access makes of a callable is the callable itself or a wrapper of it. -/
theorem wrapped_of_bindOnAccess {rt' : Runtime} {callable w : Value} {accessor : Option Value}
    {accessingClass : Option TypeId}
    (made : (Activity.bindOnAccess callable accessor accessingClass).run rt = (.ok w, rt')) :
    w = callable ∨ ∃ g, rt'.heap.function? w = some g ∧ g.wrapped? = some callable := by
  unfold Activity.bindOnAccess at made
  rw [Activity.run_get] at made
  split at made
  · exact .inr (wrapped_of_bindMethod made)
  · cases made
    exact .inl rfl

/-- A wrapper has the entry of its own kind, which is valid, or that of what it wraps. -/
theorem Occurs.admits_wrapper {liberty : Liberty} (h : rt.Occurs liberty) {w : Value}
    {g : Function} (hg : rt.heap.function? w = some g) (wrapped : g.wrapped? = some v)
    (valid : ∀ f, rt.heap.function? v = some f → ∃ c, f.entry.validate = .ok c) :
    rt.Admits w g := by
  obtain ⟨r, rfl, here⟩ := Heap.get?_of_function? hg
  rcases (h.orderly r g here).lent v wrapped with own | ⟨f, hf, same⟩
  · exact admits_of_valid (own ▸ Entry.validate_boundMethod)
  · obtain ⟨c, valid⟩ := valid f hf
    exact admits_of_valid (same ▸ valid)

end Runtime

namespace Target

variable {rt rt₁ : Runtime} {target : Target} {before : Dict Value} {table : List Entry}

/-- A callable that was registered has its entry for ever. -/
theorem Made.entry {e : Entry} {v : Value} (made : target.Made rt rt₁ e v)
    (sound : rt₁.Sound) {rt₂ : Runtime} (later : rt₁.Reaches rt₂) {f : Function}
    (hf : rt₂.heap.function? v = some f) : f.entry = e := by
  obtain ⟨r, metadata, rfl, -, -, here⟩ := made
  obtain ⟨g, hg, alike⟩ := (sound.persists later).function (Heap.function?_of_get? here)
    (Runtime.knows_of_function? hf)
  obtain rfl := Option.some.inj (hg.symm.trans hf)
  exact alike.entry

/-- What the two checks of the flags of an entry have to do with each other, from the state in
which its table was registered on. -/
structure FlagsAgree (target : Target) (rt rt₁ : Runtime) (before : Dict Value)
    (table : List Entry) : Prop where
  /-- What the names stand for that the table decides about: callables that entries became. -/
  registered : ∃ after, target.names? rt₁ = some after ∧ ∀ name e,
    Table.winner? before table name = some e →
      ∃ v, after.get? name = some v ∧ target.Made rt rt₁ e v
  /-- With the check at registration, no dispatch of the callable is itself refused for flags, nor
  one of a wrapper of it. -/
  checked : rt.config.checkFlags = true → ∀ e ∈ table, Table.isSkipped e = false →
    ∀ v, target.Made rt rt₁ e v → ∀ rt₂ liberty, rt₁.Reaches rt₂ → rt₂.Occurs liberty →
      (∀ f, rt₂.heap.function? v = some f → rt₂.Admits v f) ∧
      ∀ w g, rt₂.heap.function? w = some g → g.wrapped? = some v → rt₂.Admits w g
  /-- Instance access, class access and explicit binding make only such wrappers. -/
  wrappers : ∀ rt₂ rt₃ v w, (∃ receiver, (Activity.bindMethod v receiver).run rt₂ = (.ok w, rt₃)) ∨
      (∃ accessor accessingClass,
        (Activity.bindOnAccess v accessor accessingClass).run rt₂ = (.ok w, rt₃)) →
    w = v ∨ ∃ g, rt₃.heap.function? w = some g ∧ g.wrapped? = some v
  /-- Without that check, a callable whose entry is not valid refuses all calls that pass the
  receiver check, with the error that registering its entry would have given. -/
  unchecked : rt.config.checkFlags = false → ∀ e ∈ table, Table.isSkipped e = false →
    ∀ cause, e.validate = .error cause →
      cause = .badCallFlags e.name e.flags.bits ∧
      (target.register [e]).run rt.checking = (.error cause, rt.checking) ∧
      ∀ v, target.Made rt rt₁ e v → ∀ rt₂, rt₁.Reaches rt₂ →
        ∀ f, rt₂.heap.function? v = some f → rt₂.Refuses v f cause
  /-- No entry point is ever handed arguments by a convention that its flags do not select. -/
  conventions : ∀ (rt₂ : Runtime) v f args keywords (delivery : Delivery f.entry.convention),
    rt₂.deliver v f args keywords = .ok delivery →
      Convention.ofFlags? f.entry.flags = some f.entry.convention

open Activity

theorem safe_register (sound : rt.Sound) (found : target.names? rt = some before)
    (table : List Entry) : Safe Any rt (target.register table) := by
  cases target with
  | type id =>
    obtain ⟨t, ht, -⟩ := Option.map_eq_some_iff.mp found
    exact safe_addTableToType sound (Registry.contains_of_get? ht) table
  | module m =>
    obtain ⟨_, _, hm, -⟩ := module_of_names? found
    cases m with
    | object r => exact safe_addTableToModule sound (show rt.Knows (.object r) from ⟨_, hm⟩) table
    | _ => cases hm

/-- A table that has been registered has met with no objection, and settles every name. -/
theorem of_register (found : target.names? rt = some before) {added : Nat}
    (run : (target.register table).run rt = (.ok added, rt₁)) :
    (∀ e ∈ table, Table.isSkipped e = false → ∀ cause, ¬ Objects rt.config target e cause) ∧
      ∃ after, target.names? rt₁ = some after ∧
        ∀ name, Settled rt rt₁ target before after table name := by
  have validated := Table.forM_cases rt.config target (table.filter (!Table.isSkipped ·))
  rw [run_register found, Table.validate] at run
  cases hv : (table.filter (!Table.isSkipped ·)).forM (Table.check rt.config target.isModule) with
  | error cause =>
    rw [hv] at run
    cases run
  | ok u =>
    rw [hv] at run validated
    obtain ⟨rt', after, ran, -, here, settled⟩ := run_adds found table
    obtain ⟨-, rfl⟩ := Prod.mk.inj (ran.symm.trans run)
    exact ⟨fun e he kept => validated e (by simp [he, kept]), after, here, settled⟩

/-- An entry to which there is no objection has a class to bind to, if it needs one. -/
theorem bindable_of_accepted {config : Config} {e : Entry}
    (accepted : ∀ cause, ¬ Objects config target e cause) (isModule : target.isModule = true) :
    e.flags.has .onClass = false := by
  cases target with
  | type id => cases isModule
  | module m =>
    cases bindsToClass : e.flags.has .onClass with
    | false => rfl
    | true => exact absurd (.onClass bindsToClass) (accepted _)

/-- With the check, an entry that is not valid would have been refused. -/
theorem run_register_checking (found : target.names? rt = some before) {e : Entry}
    (kept : Table.isSkipped e = false) {cause : CallError}
    (accepted : ∀ cause, ¬ Objects rt.config target e cause)
    (invalid : e.validate = .error cause) :
    (target.register [e]).run rt.checking = (.error cause, rt.checking) := by
  have here : target.names? rt.checking = some before := found
  have checked : Table.check rt.checking.config target.isModule e = .error cause := by
    exact Table.check_eq_error_iff.mpr (.flags rfl (bindable_of_accepted accepted) invalid)
  have refused : Table.validate rt.checking.config target.isModule [e] = .error cause := by
    have only : [e].filter (!Table.isSkipped ·) = [e] := by simp [kept]
    rw [Table.validate, only]
    change (Table.check rt.checking.config target.isModule e >>= fun _ => _) = _
    rw [checked]
    rfl
  rw [run_register here, refused]

/-- The check of flags at registration and that at calls agree. -/
theorem flags_agree {liberty : Liberty} (h : rt.Occurs liberty)
    (found : target.names? rt = some before) {added : Nat}
    (run : (target.register table).run rt = (.ok added, rt₁)) :
    FlagsAgree target rt rt₁ before table := by
  obtain ⟨accepted, after, here, settled⟩ := of_register found run
  have sound : rt₁.Sound := by
    have changes := (safe_register h.sound found table).changes
    rw [run] at changes
    exact h.sound.changes changes
  constructor
  case registered =>
    refine ⟨after, here, fun name e winner => ?_⟩
    have decided := settled name
    rw [Settled, winner] at decided
    exact decided
  case checked =>
    intro checks e he kept v made rt₂ liberty later occurs
    have valid : ∃ c, e.validate = .ok c := by
      cases valid : e.validate with
      | ok c => exact ⟨c, rfl⟩
      | error cause =>
        exact absurd (.flags checks (bindable_of_accepted (accepted e he kept)) valid)
          (accepted e he kept cause)
    refine ⟨fun f hf => ?_, fun w g hg wrapped => ?_⟩
    · obtain ⟨c, valid⟩ := valid
      exact Runtime.admits_of_valid (made.entry sound later hf ▸ valid)
    · exact occurs.admits_wrapper hg wrapped fun f hf => made.entry sound later hf ▸ valid
  case wrappers =>
    rintro rt₂ rt₃ v w (⟨receiver, made⟩ | ⟨accessor, accessingClass, made⟩)
    · exact .inr (Runtime.wrapped_of_bindMethod made)
    · exact Runtime.wrapped_of_bindOnAccess made
  case unchecked =>
    intro unchecked e he kept cause invalid
    refine ⟨Entry.badCallFlags_of_validate invalid,
      run_register_checking found kept (accepted e he kept) invalid, ?_⟩
    intro v made rt₂ later f hf
    exact Runtime.refuses_of_invalid (made.entry sound later hf ▸ invalid)
  case conventions => exact fun rt₂ v f args keywords delivery => Runtime.ofFlags?_of_deliver

/-- An entry whose flags select another convention than the one it is written for. -/
def mislabelled : Entry := ⟨2, "m", .fast, .record, .noArgs, none, false⟩

/-- Without the check the entry is registered, and its callable refuses calls with the error with
which the check would have refused the table. -/
theorem flags_agree_mislabelled :
    ∃ rt₁ v f, ((type .int).register [mislabelled]).run (.start ⟨1000, false⟩) = (.ok 1, rt₁) ∧
      rt₁.heap.function? v = some f ∧ rt₁.Refuses v f (.badCallFlags "m" 4) ∧
      ((type .int).register [mislabelled]).run (Runtime.start ⟨1000, false⟩).checking =
        (.error (.badCallFlags "m" 4), (Runtime.start ⟨1000, false⟩).checking) := by
  have added : (((type .int).register [mislabelled]).run (.start ⟨1000, false⟩)).1 = .ok 1 := by
    decide +kernel
  rcases run : ((type .int).register [mislabelled]).run (.start ⟨1000, false⟩) with ⟨result, rt₁⟩
  rw [run] at added
  obtain rfl : result = .ok 1 := added
  have occurs : (Runtime.start ⟨1000, false⟩).Occurs .nobody :=
    .of_session (.start ⟨1000, false⟩ .empty)
  have found : (type .int).names? (.start ⟨1000, false⟩) = some .empty := rfl
  have agree := flags_agree occurs found run
  obtain ⟨after, -, registered⟩ := agree.registered
  obtain ⟨v, -, made⟩ := registered "m" mislabelled rfl
  obtain ⟨-, refused, refuses⟩ := agree.unchecked rfl mislabelled (by simp) rfl
    (.badCallFlags "m" 4) rfl
  obtain ⟨r, metadata, rfl, -, -, here⟩ := id made
  have there := Heap.function?_of_get? here
  exact ⟨rt₁, _, _, rfl, there, refuses _ made rt₁ .refl _ there, refused⟩

end Target
end Callables
