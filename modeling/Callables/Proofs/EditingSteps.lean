import Callables.Proofs.EditingCalls
import Callables.Proofs.Following

namespace Callables

namespace Session

def editing (liberty : Liberty) : Course Session where
  Leads s s' := s.runtime.heap.Edits liberty s'.runtime.heap ∧ s'.marks = s.marks ∧
    s.runtime.Notes s'.runtime
  refl s := ⟨.refl, rfl, .refl s.runtime⟩
  trans first second := ⟨first.1.trans second.1, second.2.1.trans first.2.1,
    first.2.2.trans second.2.2⟩

def standing (s : Session) : Thread × Nat := (s.runtime.thread, s.openLevels)

def making : Course Session := .both (editing .nobody) (.keeping standing)

def building : Course Session where
  Leads s s' := s.runtime.heap.Builds s'.runtime.heap ∧ s'.marks = s.marks
  refl s := ⟨.refl s.runtime.heap, rfl⟩
  trans first second := ⟨first.1.trans second.1, second.2.trans first.2⟩

def staying : Course Session where
  Leads s s' := ∀ {r o}, s.runtime.heap.get? r = some o → s'.runtime.heap.get? r = some o
  refl _ := id
  trans first second := fun found => second (first found)

/-- Where all closures are respected, so are those that have to be. -/
theorem leads_free {s s' : Session} (h : (editing .nobody).Leads s s') (liberty : Liberty) :
    (editing liberty).Leads s s' :=
  ⟨h.1.free liberty, h.2⟩

theorem leads_builds {liberty : Liberty} {s s' : Session} (h : (editing liberty).Leads s s') :
    building.Leads s s' :=
  ⟨h.1.builds, h.2.1⟩

end Session

namespace Program

variable {α : Type}

abbrev Edits (p : Program α) : Prop := Follows (Session.editing .nobody) p

abbrev Makes (p : Program α) : Prop := Follows Session.making p

theorem Makes.edits {p : Program α} (h : Makes p) : Edits p := Follows.weaken h And.left

theorem edits_act {activity : Activity α} (h : Activity.EditsHeap activity) :
    Edits (act activity) :=
  fun s => ⟨(h s.runtime).heap, rfl, (h s.runtime).notes⟩

theorem makes_act {activity : Activity α} (h : Activity.Makes activity) : Makes (act activity) :=
  fun s => ⟨edits_act h.edits s, congrArg (·, s.openLevels) (h.thread s.runtime)⟩

theorem reads_making : Reads Session.making :=
  ⟨fun content => makes_act (Activity.makes_text content),
    fun function module => makes_act (Activity.makes_allocate function module)⟩

theorem reads_editing : Reads (Session.editing .nobody) :=
  ⟨fun content => Makes.edits (reads_making.text content),
    fun function module => Makes.edits (reads_making.allocate function module)⟩

theorem reads_staying : Reads Session.staying where
  text _ _ := fun found => found
  allocate _ _ _ := fun found => Heap.get?_push_of_some _ found

/-- A run that succeeds has succeeded with its first part. -/
theorem ok_of_bind {α β : Type} {p : Program α} {f : α → Program β} {s s' : Session} {b : β}
    (h : (p >>= f).run s = (.ok b, s')) :
    ∃ a s₁, p.run s = (.ok a, s₁) ∧ (f a).run s₁ = (.ok b, s') := by
  rw [run_bind] at h
  rcases hr : p.run s with ⟨result, s₁⟩
  rw [hr] at h
  cases result with
  | error e => cases h
  | ok a => exact ⟨a, s₁, rfl, h⟩

theorem ok_of_need {o : Option α} {s s' : Session} {a : α}
    (h : (need o).run s = (.ok a, s')) : o = some a ∧ s' = s := by
  cases o with
  | none => cases h
  | some b =>
    cases h
    exact ⟨rfl, rfl⟩

theorem readObject_found {view : Object → Option α} {s s' : Session} {operand : Operand} {r : Ref}
    {a : α} (read : (readObject view operand).run s = (.ok (r, a), s')) :
    ∃ o, s'.runtime.heap.get? r = some o ∧ view o = some a := by
  obtain ⟨v, after, -, found⟩ := ok_of_bind read
  cases v with
  | object place =>
    obtain ⟨b, s₁, needed, rest⟩ := ok_of_bind
      (p := need ((after.runtime.heap.get? place).bind view)) (s := after) found
    obtain ⟨seen, rfl⟩ := ok_of_need needed
    cases rest
    exact Option.bind_eq_some_iff.mp seen
  | _ => cases found

/-- A program that changes nothing of heap, ledger, marks, thread and levels. -/
theorem makes_modify {f : Session → Session}
    (h : ∀ s, (f s).runtime.heap = s.runtime.heap ∧ (f s).runtime.ledger = s.runtime.ledger ∧
      (f s).marks = s.marks ∧ (f s).standing = s.standing) :
    Makes (modify f : Program PUnit) := by
  refine follows_modify fun s => ?_
  obtain ⟨heap, ledger, marks, standing⟩ := h s
  refine ⟨⟨heap ▸ .refl, marks, .of_found [] ?_ fun found => heap ▸ found⟩, standing⟩
  rw [ledger, List.append_nil]

theorem edits_openLevels (f : Nat → Nat) :
    Edits (modify fun s => { s with openLevels := f s.openLevels } : Program PUnit) :=
  fun s => ⟨.refl, rfl, .refl s.runtime⟩

theorem makes_forget (name : String) : Makes (modify (·.forget name) : Program PUnit) :=
  fun s => ⟨⟨.refl, rfl, .push s.runtime _⟩, rfl⟩

theorem makes_setRegistry (name : String) (r : Registry TypeId) : Makes (setRegistry name r) :=
  makes_modify fun _ => ⟨rfl, rfl, rfl, rfl⟩

end Program

namespace Operation

open Program

theorem makes_setTypes (types : Types) : Makes (setTypes types) :=
  makes_modify fun _ => ⟨rfl, rfl, rfl, rfl⟩

theorem makes_value {activity : Activity Value} (h : Activity.Makes activity) :
    Makes (value activity) :=
  follows_value (makes_act h)

theorem makes_done {activity : Activity Unit} (h : Activity.Makes activity) :
    Makes (done activity) :=
  follows_done (makes_act h)

/-- An operation that calls holds the operands meanwhile. -/
theorem edits_called {target : Operand} {args : List Operand}
    {keywords : List (String × Operand)} (call : Callee)
    (h : ∀ callee args keywords, Activity.EditsHeap (call callee args keywords)) :
    Edits (do
      let target ← read target
      let args ← readAll args
      let keywords ← readKeywords keywords
      value (Activity.holding (keywords.values ++ args ++ [target]) (call target args keywords))) :=
  (reads_editing.read _).bind fun _ => (reads_editing.readAll _).bind fun _ =>
    (reads_editing.readKeywords _).bind fun _ =>
      follows_value (edits_act (Activity.edits_holding _ (h _ _ _)))

def isWatch : Operation → Bool
  | .watch .. => true
  | _ => false

/-- Whether all parts of an operation are edits wherever they begin. A watcher adds a mark; setting
metadata and making a host-language function depend on what has just been read. -/
def isPlain : Operation → Bool
  | .watch .. | .setMetadata .. | .newHostFunction .. => false
  | _ => true

def isQuiet : Operation → Bool
  | .call .. | .callMethod .. | .callDirectly .. => false
  | .profile _ | .stopProfile | .takeLog | .resetCounts | .setLimit _ | .enter _ | .leave => false
  | _ => true

theorem makes_run (operation : Operation) (plain : operation.isPlain = true)
    (quiet : operation.isQuiet = true) : Makes operation.run := by
  cases operation with
  | watch | setMetadata | newHostFunction => cases plain
  | call | callMethod | callDirectly => cases quiet
  | profile | stopProfile | takeLog | resetCounts | setLimit | enter | leave => cases quiet
  | make operand => exact (reads_making.read operand).bind fun _ => follows_pure _
  | drop name =>
    exact follows_get fun _ => (follows_need _).discard.bind fun _ =>
      (makes_forget name).bind fun _ => follows_pure _
  | newType name bases =>
    exact (follows_mapM reads_making.readType bases).bind fun _ => follows_runtime fun _ =>
      (follows_ofTypes _).bind fun _ => (makes_setTypes _).bind fun _ => follows_pure _
  | addTypeFlags type flags =>
    exact (reads_making.readType type).bind fun _ => follows_runtime fun _ =>
      (follows_ofTypes _).bind fun _ => (makes_setTypes _).bind fun _ => follows_pure _
  | typeAttribute type name | inheritedAttribute type name =>
    exact (reads_making.readType type).bind fun _ => follows_runtime fun _ => follows_pure _
  | setTypeAttribute type name v =>
    exact (reads_making.readType type).bind fun _ => (reads_making.read v).bind fun _ =>
      makes_done (Activity.makes_setTypeAttribute _ _ _)
  | eraseTypeAttribute type name =>
    exact (reads_making.readType type).bind fun _ =>
      (makes_act (Activity.makes_eraseTypeAttribute _ _)).bind fun _ => follows_pure _
  | newInstance type =>
    exact (reads_making.readType type).bind fun _ =>
      makes_value (Activity.makes_allocate rfl (by simp))
  | newModule name => exact makes_value (Activity.makes_newModule name)
  | moduleNames module =>
    exact (reads_making.read module).bind fun _ => follows_runtime fun _ =>
      (follows_need _).bind fun _ => follows_pure _
  | item tuple index => exact (reads_making.readObject _ tuple).bind fun _ => follows_pure _
  | concat left right =>
    exact (reads_making.readObject _ left).bind fun _ =>
      (reads_making.readObject _ right).bind fun _ => makes_value (Activity.makes_tuple _)
  | entryOf dict key => exact (reads_making.readObject _ dict).bind fun _ => follows_pure _
  | setEntry dict key v =>
    exact (reads_making.readObject _ dict).bind fun _ => (reads_making.read v).bind fun _ =>
      makes_done (Activity.makes_setInDict _ _ _)
  | eraseEntry dict key =>
    exact (reads_making.readObject _ dict).bind fun _ =>
      (makes_act (Activity.makes_eraseInDict _ _)).bind fun _ => follows_pure _
  | copyDict dict =>
    exact (reads_making.readObject _ dict).bind fun _ => makes_value (Activity.makes_dict _)
  | newCode plan => exact (reads_making.makeCode plan).bind fun _ => follows_pure _
  | define label plan =>
    refine (makes_act Activity.makes_entryIdent).bind fun _ =>
      (makes_modify ?_).bind fun _ => follows_pure _
    exact fun _ => ⟨rfl, rfl, rfl, rfl⟩
  | newBuiltinFunction label receiver module =>
    refine (follows_entry label).bind fun entry => ?_
    split
    · exact follows_throw_bind _ _
    · exact (reads_making.readOptional receiver).bind fun _ =>
        (reads_making.readOptional module).bind fun _ =>
          makes_value (Activity.makes_newBuiltinFunction _ _ _)
  | newNativeFunction label receiver module owner =>
    exact (follows_entry label).bind fun _ => (reads_making.readOptional receiver).bind fun _ =>
      (reads_making.readOptional module).bind fun _ =>
        (reads_making.readOptionalType owner).bind fun _ =>
          makes_value (Activity.makes_newNativeMethod _ _ _ _)
  | newClosure name body => exact makes_value (Activity.makes_allocate rfl (by simp))
  | addTableToType type labels =>
    exact (reads_making.readType type).bind fun _ =>
      (follows_mapM follows_entry labels).bind fun _ =>
        (makes_act (Activity.makes_newTable _)).bind fun _ =>
          (makes_act (Activity.makes_addTableToType _ _)).bind fun _ => follows_pure _
  | addTableToModule module labels =>
    exact (reads_making.read module).bind fun _ =>
      (follows_mapM follows_entry labels).bind fun _ =>
        (makes_act (Activity.makes_newTable _)).bind fun _ =>
          (makes_act (Activity.makes_addTableToModule _ _)).bind fun _ => follows_pure _
  | bindMethod callable receiver =>
    exact (reads_making.read callable).bind fun _ => (reads_making.read receiver).bind fun _ =>
      makes_value (Activity.makes_bindMethod _ _)
  | bindOnAccess callable accessor accessingClass =>
    exact (reads_making.read callable).bind fun _ =>
      (reads_making.readOptional accessor).bind fun _ =>
        (reads_making.readOptionalType accessingClass).bind fun _ =>
          makes_value (Activity.makes_bindOnAccess _ _ _)
  | getAttribute target name =>
    exact (reads_making.read target).bind fun _ =>
      makes_value (Activity.makes_getAttribute _ _)
  | setAttribute target name v =>
    exact (reads_making.read target).bind fun _ => (reads_making.read v).bind fun _ =>
      makes_done (Activity.makes_setAttribute _ _ _)
  | newRegistry label => exact (makes_setRegistry _ _).bind fun _ => follows_pure _
  | allocateId label =>
    exact (follows_registry label).bind fun _ =>
      (makes_setRegistry _ _).bind fun _ => follows_pure _
  | register label type =>
    exact (follows_registry label).bind fun _ => (reads_making.readType type).bind fun _ =>
      (makes_setRegistry _ _).bind fun _ => follows_pure _

theorem edits_run (operation : Operation) (plain : operation.isPlain = true) :
    Edits operation.run := by
  cases operation with
  | call callee args keywords => exact edits_called Activity.call Activity.edits_call
  | callMethod receiver name args keywords =>
    exact edits_called (fun receiver => Activity.callMethod receiver name)
      fun _ _ _ => Activity.edits_callMethod _ _ _ _
  | callDirectly callee args keywords =>
    exact edits_called Activity.callDirectly Activity.edits_callDirectly
  | profile | stopProfile | resetCounts | setLimit =>
    exact follows_done (edits_act (Activity.edits_modifyThread _))
  | takeLog =>
    exact follows_runtime fun _ =>
      (edits_act (Activity.edits_modifyThread _)).bind fun _ => follows_pure _
  | enter name =>
    refine follows_runtime fun rt => ?_
    dsimp only
    split
    · exact (edits_act (Activity.edits_modifyThread _)).bind fun _ =>
        (edits_openLevels (· + 1)).bind fun _ => follows_pure _
    · exact follows_throw _
  | leave =>
    refine follows_get fun s => ?_
    split
    · exact follows_throw_bind _ _
    · exact (edits_act (Activity.edits_modifyThread _)).bind fun _ =>
        (edits_openLevels (· - 1)).bind fun _ => follows_runtime fun _ => follows_pure _
  | _ => exact (makes_run _ plain rfl).edits

/-- What has been read is still there when further operands have been read. -/
theorem get?_of_read {α : Type} {p : Program α} (reads : Follows Session.staying p)
    {s s' : Session} {a : α} (read : p.run s = (.ok a, s')) {r : Ref} {o : Object}
    (there : s.runtime.heap.get? r = some o) : s'.runtime.heap.get? r = some o := by
  have stays := reads s there
  rw [read] at stays
  exact stays

/-- Code and closure of a new host-language function are those that have just been read. -/
theorem edits_newHostFunction (code globals : Operand) (qualname : Option String)
    (closure : Option Operand) :
    Edits (Operation.newHostFunction code globals qualname closure).run := by
  intro s
  refine leads_bind_of (reads_editing.readObject Object.code? code s) fun ⟨r, c⟩ s₁ first => ?_
  obtain ⟨o, there, view⟩ := readObject_found first
  obtain rfl := Object.code?_eq_some.mp view
  refine leads_bind_of (reads_editing.read globals s₁) fun v s₂ second => ?_
  -- reading the other operands may make objects, but the code stays where it is
  have coded := get?_of_read (reads_staying.read globals) second there
  refine leads_bind_of (follows_mapM_option (reads_editing.readObject _) closure s₂)
    fun cells s₃ third => ?_
  have stays := follows_mapM_option (reads_staying.readObject Object.tuple?) closure
  have coded := get?_of_read stays third coded
  have closed : ∀ cell, cells.map Prod.fst = some cell →
      ∃ items, s₃.runtime.heap.get? cell = some (.tuple items) := by
    intro cell some
    cases closure with
    | none =>
      cases third
      cases some
    | some operand =>
      obtain ⟨x, s₄, found, rest⟩ := ok_of_bind (p := readTuple operand) (s := s₂) third
      cases rest
      cases some
      obtain ⟨o, there, view⟩ := readObject_found found
      obtain rfl := Object.tuple?_eq_some.mp view
      exact ⟨_, there⟩
  obtain ⟨⟨heap, notes, -⟩, -⟩ := Activity.makes_newHostFunction coded v qualname closed
  exact leads_bind ⟨heap, rfl, notes⟩ fun _ => follows_pure _

theorem edits_setMetadata {s : Session} {function value : Operand} {field : MetadataField}
    {liberty : Liberty} (allowed : field = .code → ∀ r f s',
      (readFunction function).run s = (.ok (r, f), s') → liberty.covers f = true) :
    (Session.editing liberty).Leads s
      ((Operation.setMetadata function field value).run.run s).2 := by
  have read := Session.leads_free (reads_editing.readObject Object.function? function s) liberty
  refine leads_bind_of read fun ⟨r, f⟩ s₁ first => ?_
  obtain ⟨o, there, view⟩ := readObject_found first
  obtain rfl := Object.function?_eq_some.mp view
  refine leads_bind_of (Session.leads_free (reads_editing.read value s₁) liberty)
    fun v s₂ second => ?_
  have here := get?_of_read (reads_staying.read value) second there
  refine leads_bind_of (follows_need f.metadata? s₂) fun m s₃ third => ?_
  obtain ⟨hm, rfl⟩ := ok_of_need third
  refine leads_bind_of ((Session.editing liberty).refl s₃) fun rt s₄ fourth => ?_
  cases fourth
  refine leads_bind_of (follows_need (m.set? s₃.runtime.heap field v) s₃) fun m' s₄ fifth => ?_
  obtain ⟨set, rfl⟩ := ok_of_need fifth
  have stored : ((Activity.modifyMetadata r fun _ => m').run s₄.runtime).2 = _ :=
    congrArg Prod.snd (Activity.run_modifyMetadata here hm fun _ => m')
  refine leads_bind_of ⟨?_, rfl, ?_⟩ fun _ _ _ => (Session.editing liberty).refl _
  · change s₄.runtime.heap.Edits liberty
      ((Activity.modifyMetadata r fun _ => m').run s₄.runtime).2.heap
    rw [stored]
    refine .single (.metadata here hm set fun code covered => ?_)
    rw [allowed code r f s₁ first] at covered
    cases covered
  · change s₄.runtime.Notes ((Activity.modifyMetadata r fun _ => m').run s₄.runtime).2
    rw [stored]
    exact .storing here _

end Operation

namespace Session

open Operation Program

def overridden? (s : Session) : Operation → Option Function
  | .setMetadata function .code _ =>
    match (readFunction function).run s with
    | (.ok (_, f), _) => some f
    | (.error _, _) => none
  | _ => none

/-- An operation that registers no watcher edits the heap; a closure may come not to fit only where
the operation exchanges code as such. -/
theorem edits_run {liberty : Liberty} {s : Session} {operation : Operation}
    (h : operation.isWatch = false)
    (allowed : (s.overridden? operation).all liberty.covers = true) :
    (editing liberty).Leads s (operation.run.run s).2 := by
  cases operation with
  | watch => cases h
  | setMetadata function field value =>
    refine edits_setMetadata fun code r f s' found => ?_
    subst code
    simpa [overridden?, found] using allowed
  | newHostFunction code globals qualname closure =>
    exact leads_free (edits_newHostFunction _ _ _ _ s) liberty
  | _ => exact leads_free (Operation.edits_run _ rfl s) liberty

theorem overridden_everybody (s : Session) (operation : Operation) :
    (s.overridden? operation).all Liberty.everybody.covers = true := by
  cases s.overridden? operation <;> rfl

end Session
end Callables
