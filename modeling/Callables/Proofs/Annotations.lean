import Callables.Proofs.Receivers
import Callables.Proofs.Storing

namespace Callables

inductive Access
  | read (v : Value) (name : String)
  | assign (v : Value) (name : String) (value : Value)

namespace Access

def after (rt : Runtime) : Access → Runtime
  | read v name => ((Activity.getAttribute v name).run rt).2
  | assign v name value => ((Activity.setAttribute v name value).run rt).2

def assigns? : Access → Option (Value × String)
  | read _ _ => none
  | assign v name _ => some (v, name)

theorem edits_after (rt : Runtime) (access : Access) : rt.Edits (access.after rt) := by
  cases access with
  | read v name => exact (Activity.makes_getAttribute v name).edits rt
  | assign v name value => exact (Activity.makes_setAttribute v name value).edits rt

end Access

theorem Invocation.edits_run (i : Invocation) : Activity.EditsHeap (i.run Activity.call) := by
  cases i with
  | call callee args keywords => exact Activity.edits_call callee args keywords
  | callMethod receiver name args keywords =>
    exact Activity.edits_callMethod receiver name args keywords

def Object.annotations? : Object → Option Ref
  | .function f => if f.isHost then f.metadata?.bind Metadata.annotations else none
  | _ => none

theorem Object.annotations?_withMetadata {f : Function} {m m' : Metadata}
    (hm : f.metadata? = some m) (same : m'.annotations = m.annotations) :
    (Object.function (f.withMetadata m')).annotations? = (Object.function f).annotations? := by
  simp [annotations?, f.isHost_withMetadata, Function.metadata?_withMetadata hm, hm, same]

def Move.unannotates (dict : Ref) : Move → Bool
  | .change old new => old.annotations? == some dict && new.annotations? != some dict
  | _ => false

theorem Move.annotations_of_changes {dict : Ref} {moves : List Move}
    (spared : moves.all (!·.unannotates dict) = true) {o o' : Object}
    (changes : Relation.ReflTransGen (fun old new => Move.change old new ∈ moves) o o')
    (had : o.annotations? = some dict) : o'.annotations? = some dict := by
  induction changes with
  | refl => exact had
  | tail _ change ih =>
    have kept := List.all_eq_true.mp spared _ change
    simpa [unannotates, ih] using kept

namespace Runtime

/-- How a program goes on from a state, and what it notes meanwhile: it reads or assigns an
attribute, makes a call, or carries out a whole operation, which ends with releases. -/
inductive Stage : Runtime → List Move → Runtime → Prop
  | access (rt : Runtime) (access : Access) :
      Stage rt (rt.noted (access.after rt)) (access.after rt)
  | call (rt : Runtime) (i : Invocation) :
      Stage rt (rt.noted ((i.run Activity.call).run rt).2) ((i.run Activity.call).run rt).2
  | operation {s : Session} (sound : s.Sound) {o : Operation} (room : s.hasRoomFor o = true)
      (label : Option String) :
      Stage s.runtime (s.runtime.noted (o.run.run s).2.runtime) (s.step o label).2.runtime

/-- A program goes on, and no function with annotations in this dict gets others. -/
def Spares (dict : Ref) : Runtime → Runtime → Prop :=
  Relation.ReflTransGen fun rt rt' =>
    ∃ moves, Stage rt moves rt' ∧ moves.all (!·.unannotates dict) = true

end Runtime

/-- The function at a place, as long as it is there, has its annotations in this dict. -/
structure Heap.Annotates (h : Heap) (r dict : Ref) : Prop where
  used : r < h.size
  there : ∀ {o}, h.get? r = some o → o.annotations? = some dict

namespace Heap.Annotates

variable {h h' : Heap} {r dict place : Ref}

theorem push (annotates : h.Annotates r dict) (o : Object) : (h.push o).Annotates r dict := by
  have grown : (h.push o).size = h.size + 1 := by simp [Heap.size, Heap.push]
  refine ⟨grown ▸ Nat.lt_succ_of_lt annotates.used, fun found => annotates.there ?_⟩
  have old : r ≠ h.nextRef := Nat.ne_of_lt annotates.used
  rw [get?_push, if_neg old] at found
  exact found

/-- What takes the place of a function has the same annotations. -/
theorem set (annotates : h.Annotates r dict) {old new : Object} (found : h.get? place = some old)
    (same : place = r → old.annotations? = some dict → new.annotations? = some dict) :
    (h.set place new).Annotates r dict := by
  refine ⟨by simpa [Heap.size, Heap.set] using annotates.used, fun {o} there => ?_⟩
  by_cases hr : r = place
  · subst hr
    rw [get?_set_self new annotates.used] at there
    exact Option.some.inj there ▸ same rfl (annotates.there found)
  · exact annotates.there ((get?_set_of_ne _ _ hr).symm.trans there)

theorem sweep (annotates : h.Annotates r dict) (roots : List Value) :
    (h.sweep roots).heap.Annotates r dict := by
  have fair := h.sweep_fair roots
  exact ⟨fair.size ▸ annotates.used, fun found => annotates.there (fair.kept found)⟩

end Heap.Annotates

namespace Runtime

variable {rt rt' : Runtime} {v value : Value} {name : String} {r dict place : Ref}

/-- An assignment that comes to another object sets the field of a function that bears the name, or
an attribute of an object of a class. -/
theorem assignment_object {new : Object} (made : rt.assignment v name value = .object place new) :
    v = .object place ∧ ∃ old, rt.heap.get? place = some old ∧
      ((∃ f m m', ∃ field : MetadataField, old = .function f ∧ f.metadata? = some m ∧
        SpecialAttribute.named? name = some field.special ∧
        m.set? rt.heap field value = some m' ∧ new = .function (f.withMetadata m')) ∨
      ∃ type attributes attributes', old = .ofClass type attributes ∧
        new = .ofClass type attributes') := by
  unfold assignment at made
  split at made
  · rename_i r f hf
    obtain ⟨_, ⟨⟩, here⟩ := Heap.get?_of_function? (function?_of_baseFunction? hf)
    unfold functionAssignment at made
    split at made
    · cases made
    · split at made <;> cases made
    · rename_i special m named hm
      unfold specialAssignment at made
      split at made
      · rename_i m' assigned
        obtain ⟨field, rfl, -, set, -⟩ := Function.assign_ok assigned
        cases made
        exact ⟨rfl, _, here, .inl ⟨f, m, m', field, rfl, hm, named, set, rfl⟩⟩
      · cases made
    · split at made <;> cases made
  · split at made <;> cases made
  · split at made
    · cases made
    · rename_i found
      cases made
      exact ⟨rfl, _, found, .inr ⟨_, _, _, rfl, rfl⟩⟩
    · cases made
  · cases made

/-- An assignment that comes to a new attribute dict is one to a function without one. -/
theorem assignment_dict (made : rt.assignment v name value = .dict place) :
    ∃ f m, rt.heap.get? place = some (.function f) ∧ f.metadata? = some m ∧
      m.attributes = none := by
  have fair : (rt.assignment v name value).Fair False rt :=
    assignment_fair False.elim False.elim v name
  rw [made] at fair
  exact fair

/-- A dict that is made for another field leaves the annotations. -/
theorem annotates_giving (annotates : rt.heap.Annotates r dict) {f : Function} {m m' : Metadata}
    (here : rt.heap.get? place = some (.function f)) (hm : f.metadata? = some m)
    (same : m.annotations = some dict → m'.annotations = m.annotations) :
    (rt.giving place f m').heap.Annotates r dict := by
  refine (annotates.push (.dict .empty)).set (Heap.get?_push_of_some _ here) fun _ had => ?_
  have annotations : m.annotations = some dict := by
    cases host : f.isHost with
    | true => simpa [Object.annotations?, host, hm] using had
    | false => simp [Object.annotations?, host] at had
  rw [Object.annotations?_withMetadata hm (same annotations), had]

end Runtime

namespace Activity

variable {rt : Runtime} {r dict place : Ref}

theorem annotates_setInDict (annotates : rt.heap.Annotates r dict) (name : String)
    (value : Value) : ((setInDict place name value).run rt).2.heap.Annotates r dict := by
  unfold setInDict
  rw [run_get]
  split
  · rename_i found
    rw [run_store found]
    exact annotates.set found fun _ had => nomatch had
  · exact annotates

theorem annotates_getAttribute (annotates : rt.heap.Annotates r dict) (v : Value) (name : String) :
    ((getAttribute v name).run rt).2.heap.Annotates r dict := by
  rw [run_getAttribute]
  cases made : rt.reading v name with
  | failure | value | text => exact annotates
  | wrapper w => exact annotates.push _
  | dict place field =>
    obtain ⟨f, m, hf, hm, empty⟩ := Runtime.reading_dict made
    obtain ⟨_, ⟨⟩, here⟩ := Heap.get?_of_function? (Runtime.function?_of_baseFunction? hf)
    unfold Reading.run
    rw [run_bind, run_dictFor_none here hm]
    refine Runtime.annotates_giving annotates here hm fun annotations => ?_
    -- a dict is made only where there is none, so not for these annotations
    cases field with
    | annotations =>
      rw [Metadata.at?, annotations] at empty
      cases empty
    | name | qualname | doc | module | code | defaults | keywordDefaults | attributes => rfl

/-- An assignment leaves the annotations, unless it assigns them. -/
theorem annotates_setAttribute (annotates : rt.heap.Annotates r dict) {v : Value} {name : String}
    (spared : (v, name) ≠ (.object r, "__annotations__")) (value : Value) :
    ((setAttribute v name value).run rt).2.heap.Annotates r dict := by
  rw [run_setAttribute]
  cases made : rt.assignment v name value with
  | failure | type => exact annotates
  | entry place => exact annotates_setInDict annotates name value
  | dict place =>
    obtain ⟨f, m, here, hm, -⟩ := Runtime.assignment_dict made
    unfold Assignment.run
    rw [run_bind, run_dictFor_none here hm]
    have given : (rt.giving place f (Metadata.withDict .attributes rt.heap.nextRef
        m)).heap.Annotates r dict :=
      Runtime.annotates_giving annotates here hm fun _ => rfl
    exact annotates_setInDict given name value
  | object place new =>
    obtain ⟨rfl, old, found, change⟩ := Runtime.assignment_object made
    have ran : (store place new).run rt = _ := run_store found new
    unfold Assignment.run
    rw [ran]
    refine annotates.set found fun hr had => ?_
    obtain ⟨f, m, m', field, rfl, hm, named, set, rfl⟩ | ⟨_, _, _, rfl, rfl⟩ := change
    · have other : MetadataField.annotations ≠ field := by
        rintro rfl
        have called : name = "__annotations__" := SpecialAttribute.named?_inj named rfl
        exact spared (by rw [hr, called])
      exact (Object.annotations?_withMetadata hm
        ((Metadata.sameBut_of_set? set).annotations other)).trans had
    · exact had

end Activity

theorem Access.annotates {rt : Runtime} {r dict : Ref} (access : Access)
    (spared : access.assigns? ≠ some (.object r, "__annotations__"))
    (annotates : rt.heap.Annotates r dict) : (access.after rt).heap.Annotates r dict := by
  cases access with
  | read v name => exact Activity.annotates_getAttribute annotates v name
  | assign v name value =>
    exact Activity.annotates_setAttribute annotates (fun same => spared (congrArg some same)) value

/-- What a change preserves that the ledger tells of. -/
theorem Runtime.Notes.annotates {rt rt' : Runtime} {r dict : Ref} (notes : rt.Notes rt')
    (spared : (rt.noted rt').all (!·.unannotates dict) = true)
    (inside : rt.heap.size ≤ rt'.heap.size)
    (gone : r < rt.heap.size → rt.heap.get? r = none → rt'.heap.get? r = none)
    (annotates : rt.heap.Annotates r dict) : rt'.heap.Annotates r dict := by
  refine ⟨Nat.lt_of_lt_of_le annotates.used inside, fun found => ?_⟩
  cases before : rt.heap.get? r with
  | none =>
    rw [gone annotates.used before] at found
    cases found
  | some o =>
    obtain ⟨_, found', changes⟩ := notes.noted before
    obtain rfl := Option.some.inj (found'.symm.trans found)
    exact Move.annotations_of_changes spared changes (annotates.there before)

theorem Heap.Builds.gone {h h' : Heap} (builds : h.Builds h') {r : Ref} (used : r < h.size)
    (empty : h.get? r = none) : h'.get? r = none := by
  have same := builds.isSome_get? used
  rw [empty] at same
  simpa using same

namespace Session

theorem run_size (s : Session) (operation : Operation) :
    s.runtime.heap.size ≤ (operation.run.run s).2.runtime.heap.size := by
  rcases s.run_cases operation with ⟨-, builds, -⟩ | ⟨_, _, s', f, -, -, ⟨builds, -⟩, -, -, heap⟩
  · exact builds.size
  · rw [heap]
    simpa [Heap.size, Heap.set] using builds.size

theorem run_gone (s : Session) (operation : Operation) {r : Ref} (used : r < s.runtime.heap.size)
    (empty : s.runtime.heap.get? r = none) :
    (operation.run.run s).2.runtime.heap.get? r = none := by
  rcases s.run_cases operation with
    ⟨-, builds, -⟩ | ⟨place, _, s', f, -, -, ⟨builds, -⟩, here, -, heap⟩
  · exact builds.gone used empty
  · have empty' := builds.gone used empty
    have apart : r ≠ place := by
      rintro rfl
      cases here.symm.trans empty'
    rw [heap, Heap.get?_set_of_ne _ _ apart, empty']

/-- What a whole operation and the releases after it preserve. -/
theorem step_annotates {s : Session} {r dict : Ref} (operation : Operation)
    (label : Option String)
    (spared : (s.runtime.noted (operation.run.run s).2.runtime).all (!·.unannotates dict) = true)
    (annotates : s.runtime.heap.Annotates r dict) :
    (s.step operation label).2.runtime.heap.Annotates r dict := by
  rcases s.step_cases operation label with ⟨-, same⟩ | ⟨after, heap, -, settled⟩
  · rw [same]
    exact annotates
  · have ran := (s.run_notes operation).annotates spared (s.run_size operation)
      (s.run_gone operation) annotates
    rw [settled]
    exact (heap ▸ ran).sweep after.roots

end Session

structure Runtime.Annotates (rt : Runtime) (r dict : Ref) : Prop where
  builtin : Types.initial.Grows rt.types
  heap : rt.heap.Annotates r dict

namespace Runtime.Annotates

variable {rt rt' : Runtime} {r dict : Ref}

theorem run_getAttribute (h : rt.Annotates r dict) {o : Object} (here : rt.heap.get? r = some o) :
    (Activity.getAttribute (.object r) "__annotations__").run rt = (.ok (.object dict), rt) := by
  have annotations := h.heap.there here
  cases o with
  | function f =>
    cases host : f.isHost with
    | false => simp [Object.annotations?, host] at annotations
    | true =>
      simp only [Object.annotations?, host, if_true] at annotations
      obtain ⟨m, hm, annotations⟩ := Option.bind_eq_some_iff.mp annotations
      have hf := baseFunction?_of_builtin h.builtin (Heap.function?_of_get? here)
      have named : SpecialAttribute.named? "__annotations__" = some .annotations := rfl
      have read : rt.reading (.object r) "__annotations__" = .value (.object dict) := by
        rw [reading_of_metadata? hf hm, metadataReading]
        simp [named, SpecialAttribute.field?, MetadataField.isHostOnly, host,
          Function.fieldReading, Metadata.at?, annotations]
      rw [Activity.run_getAttribute, read]
      rfl
  | tuple | dict | module | code | ofClass | closure => cases annotations

theorem access (h : rt.Annotates r dict) (access : Access)
    (spared : access.assigns? ≠ some (.object r, "__annotations__")) :
    (access.after rt).Annotates r dict :=
  ⟨h.builtin.trans (access.edits_after rt).types, access.annotates spared h.heap⟩

theorem accesses {accesses : List Access}
    (spared : ∀ access ∈ accesses, access.assigns? ≠ some (.object r, "__annotations__"))
    (h : rt.Annotates r dict) {o : Object} (here : rt.heap.get? r = some o) :
    (accesses.foldl Access.after rt).Annotates r dict ∧
      ∃ o', (accesses.foldl Access.after rt).heap.get? r = some o' := by
  induction accesses generalizing rt o with
  | nil => exact ⟨h, o, here⟩
  | cons first rest ih =>
    obtain ⟨o', here', -⟩ := (first.edits_after rt).heap.builds.old here
    exact ih (fun access later => spared access (List.mem_cons_of_mem _ later))
      (h.access first (spared first List.mem_cons_self)) here'

theorem edits (h : rt.Annotates r dict) (edits : rt.Edits rt')
    (spared : (rt.noted rt').all (!·.unannotates dict) = true) : rt'.Annotates r dict := by
  have builds := edits.heap.builds
  exact ⟨h.builtin.trans edits.types,
    edits.notes.annotates spared builds.size builds.gone h.heap⟩

theorem stage (h : rt.Annotates r dict) {moves : List Move} (stage : rt.Stage moves rt')
    (spared : moves.all (!·.unannotates dict) = true) : rt'.Annotates r dict := by
  cases stage with
  | access _ access => exact h.edits (access.edits_after rt) spared
  | call _ i => exact h.edits (i.edits_run rt) spared
  | operation sound room label =>
    exact ⟨(sound.step _ room label).1.runtime.builtin,
      Session.step_annotates _ label spared h.heap⟩

/-- What a program preserves that goes on and spares the annotations. -/
theorem spares (h : rt.Annotates r dict) (later : rt.Spares dict rt') : rt'.Annotates r dict := by
  induction later with
  | refl => exact h
  | tail _ last ih =>
    obtain ⟨moves, stage, spared⟩ := last
    exact ih.stage stage spared

end Runtime.Annotates
end Callables
