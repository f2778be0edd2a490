import Callables.Proofs.Assignments
import Callables.Proofs.Building
import Callables.Proofs.Courses
import Callables.Proofs.Hierarchy

namespace Callables

structure Metadata.Sorted (h : Heap) (m : Metadata) : Prop where
  code : ∀ r, m.code = some r → ∃ c, h.get? r = some (.code c)
  defaults : ∀ r, m.defaults = some r → ∃ items, h.get? r = some (.tuple items)
  keywordDefaults : ∀ r, m.keywordDefaults = some r → ∃ d, h.get? r = some (.dict d)
  annotations : ∀ r, m.annotations = some r → ∃ d, h.get? r = some (.dict d)
  attributes : ∀ r, m.attributes = some r → ∃ d, h.get? r = some (.dict d)
  closure : ∀ r, m.closure = some r → ∃ items, h.get? r = some (.tuple items)

/-- A host-language function has code with as many free variables as it has cells; a native function
has no code. -/
structure Function.Matched (h : Heap) (f : Function) : Prop where
  host : f.isHost = true → ∀ m, f.metadata? = some m → ∃ r c, m.code = some r ∧
    h.get? r = some (.code c) ∧ (h.itemsAt m.closure).length = c.freeVariables.length
  native : f.isHost = false → ∀ m, f.metadata? = some m → m.code = none

/-- A bound wrapper is called through the entry that calls what it wraps, or through the entry of
the function that it stands for. -/
def Function.Lent (h : Heap) (f : Function) : Prop :=
  ∀ v, f.wrapped? = some v →
    f.entry = .boundMethod ∨ ∃ g, h.function? v = some g ∧ f.entry = g.entry

structure Function.New (h : Heap) (f : Function) : Prop where
  unwatched : f.watchers = []
  bound : f.isMethod = true → f.isBound = true
  lent : f.Lent h
  sorted : ∀ m, f.metadata? = some m → m.Sorted h
  matched : f.Matched h

structure Object.New (h : Heap) (o : Object) : Prop where
  function : ∀ f, o = .function f → f.New h
  dict : ∀ name names, o = .module name names → ∃ entries, h.get? names = some (.dict entries)

/-- The functions whose code may be exchanged without a look at the closure. -/
inductive Liberty
  | nobody
  | natives
  | everybody

def Liberty.covers : Liberty → Function → Bool
  | .nobody, _ => false
  | .natives, f => !f.isHost
  | .everybody, _ => true

/-- A function without metadata has nothing to be sorted or matched. -/
theorem Function.new_of_no_metadata {h : Heap} {f : Function} (none : f.metadata? = none)
    (unwatched : f.watchers = []) (bound : f.isMethod = true → f.isBound = true)
    (lent : f.Lent h) : f.New h := by
  refine ⟨unwatched, bound, lent, ?_, ?_, ?_⟩
  · simp [none]
  · simp [none]
  · simp [none]

namespace Object

theorem new_plain {h : Heap} {o : Object} (function : o.function? = none)
    (module : ∀ name names, o ≠ .module name names) : o.New h := by
  constructor
  · rintro f rfl
    cases function
  · exact fun name names he => absurd he (module name names)

theorem new_function {h : Heap} {f : Function} (new : f.New h) : (Object.function f).New h := by
  constructor
  · rintro _ ⟨⟩
    exact new
  · rintro _ _ ⟨⟩

theorem new_module {h : Heap} {name : Text} {names : Ref} {entries : Dict Value}
    (there : h.get? names = some (.dict entries)) : (Object.module name names).New h := by
  constructor
  · rintro _ ⟨⟩
  · rintro _ _ ⟨⟩
    exact ⟨entries, there⟩

theorem New.formed {h : Heap} {o : Object} (new : o.New h) : o.Formed h :=
  ⟨fun f he => (new.function f he).bound, new.dict⟩

theorem New.marks {h : Heap} {o : Object} (new : o.New h) : o.marks = [] := by
  cases o with
  | function f => simp [Object.marks, function?, (new.function f rfl).unwatched]
  | tuple | dict | module | code | ofClass | closure => rfl

end Object

namespace Heap

inductive Edit (liberty : Liberty) (h : Heap) : Heap → Prop
  | push {o} (new : o.New h) : Edit liberty h (h.push o)
  | entries {r old} (found : h.get? r = some (.dict old)) (new : Dict Value) :
      Edit liberty h (h.set r (.dict new))
  | attributes {r type old} (found : h.get? r = some (.ofClass type old)) (new : Dict Value) :
      Edit liberty h (h.set r (.ofClass type new))
  | metadata {r f m m' field value} (found : h.get? r = some (.function f))
      (held : f.metadata? = some m) (set : m.set? h field value = some m')
      (fits : field = .code → liberty.covers f = false → f.isHost = true ∧
        ∃ c, h.code? value = some c ∧ c.freeVariables.length = (h.itemsAt m.closure).length) :
      Edit liberty h (h.set r (.function (f.withMetadata m')))

abbrev Edits (liberty : Liberty) : Heap → Heap → Prop := Relation.ReflTransGen (Edit liberty)

variable {liberty : Liberty} {h h' : Heap}

theorem Edit.builds (edit : Edit liberty h h') : h.Builds h' := by
  cases edit with
  | push new => exact .push new.marks new.formed
  | entries found | attributes found => exact .set found rfl
  | metadata found => exact .set found (Object.core_metadata ..)

theorem Edits.builds (edits : Edits liberty h h') : h.Builds h' := by
  induction edits with
  | refl => exact .refl h
  | tail _ edit ih => exact ih.trans edit.builds

/-- Who respects the closures of all functions respects those of any. -/
theorem Edit.free (edit : Edit .nobody h h') (liberty : Liberty) : Edit liberty h h' := by
  cases edit with
  | push new => exact .push new
  | entries found new => exact .entries found new
  | attributes found new => exact .attributes found new
  | metadata found held set fits => exact .metadata found held set fun code _ => fits code rfl

theorem Edits.free (edits : Edits .nobody h h') (liberty : Liberty) : Edits liberty h h' := by
  induction edits with
  | refl => exact .refl
  | tail _ edit ih => exact ih.tail (edit.free liberty)

end Heap

namespace Runtime

def noted (rt rt' : Runtime) : List Move := rt'.ledger.toList.drop rt.ledger.size

/-- The ledger has gone on, and it tells all that has become of the objects there were. -/
def Notes (rt rt' : Runtime) : Prop :=
  ∃ moves : List Move, rt'.ledger.toList = rt.ledger.toList ++ moves ∧
    ∀ {r o}, rt.heap.get? r = some o → ∃ o', rt'.heap.get? r = some o' ∧
      Relation.ReflTransGen (fun old new => Move.change old new ∈ moves) o o'

namespace Notes

variable {rt rt' rt'' : Runtime}

theorem refl (rt : Runtime) : rt.Notes rt :=
  ⟨[], (List.append_nil _).symm, fun {_ o} found => ⟨o, found, .refl⟩⟩

theorem trans (h : rt.Notes rt') (h' : rt'.Notes rt'') : rt.Notes rt'' := by
  obtain ⟨moves, ledger, changes⟩ := h
  obtain ⟨moves', ledger', changes'⟩ := h'
  refine ⟨moves ++ moves', by rw [ledger', ledger, List.append_assoc], fun found => ?_⟩
  obtain ⟨o', found', path⟩ := changes found
  obtain ⟨o'', found'', path'⟩ := changes' found'
  have first := Relation.ReflTransGen.mono (fun _ _ => List.mem_append_left moves') _ _ path
  exact ⟨o'', found'',
    first.trans (Relation.ReflTransGen.mono (fun _ _ => List.mem_append_right moves) _ _ path')⟩

/-- Objects that are all where they were need no note. -/
theorem of_found (moves : List Move) (ledger : rt'.ledger.toList = rt.ledger.toList ++ moves)
    (stays : ∀ {r o}, rt.heap.get? r = some o → rt'.heap.get? r = some o) : rt.Notes rt' :=
  ⟨moves, ledger, fun {_ o} found => ⟨o, stays found, .refl⟩⟩

theorem push (rt : Runtime) (move : Move) : rt.Notes { rt with ledger := rt.ledger.push move } :=
  of_found [move] Array.toList_push id

theorem storing {r : Ref} {old : Object} (found : rt.heap.get? r = some old) (new : Object) :
    rt.Notes (rt.storing r old new) := by
  refine ⟨[.change old new], Array.toList_push, fun {place o} there => ?_⟩
  change ∃ o', (rt.heap.set r new).get? place = some o' ∧ _
  by_cases hr : place = r
  · subst hr
    obtain rfl : old = o := Option.some.inj (found.symm.trans there)
    exact ⟨new, Heap.get?_set_self new (Heap.lt_size_of_get? found),
      .single List.mem_cons_self⟩
  · exact ⟨o, (Heap.get?_set_of_ne _ _ hr).trans there, .refl⟩

/-- What is noted is what has been added to the ledger. -/
theorem noted (h : rt.Notes rt') {r : Ref} {o : Object} (found : rt.heap.get? r = some o) :
    ∃ o', rt'.heap.get? r = some o' ∧
      Relation.ReflTransGen (fun old new => Move.change old new ∈ rt.noted rt') o o' := by
  obtain ⟨moves, ledger, changes⟩ := h
  have same : rt.noted rt' = moves := by
    rw [Runtime.noted, ledger, ← Array.length_toList, List.drop_left]
  rw [same]
  exact changes found

end Notes

structure Edits (rt rt' : Runtime) : Prop where
  heap : rt.heap.Edits .nobody rt'.heap
  notes : rt.Notes rt'
  types : rt.types.Grows rt'.types

namespace Edits

theorem refl (rt : Runtime) : rt.Edits rt := ⟨.refl, .refl rt, .refl _⟩

theorem trans {rt rt' rt'' : Runtime} (h : rt.Edits rt') (h' : rt'.Edits rt'') : rt.Edits rt'' :=
  ⟨h.heap.trans h'.heap, h.notes.trans h'.notes, h.types.trans h'.types⟩

end Edits

def editing : Course Runtime := ⟨Edits, Edits.refl, Edits.trans⟩

def making : Course Runtime := .both editing (.keeping Runtime.thread)

end Runtime

namespace Activity

variable {α : Type} {rt : Runtime}

abbrev EditsHeap (a : Activity α) : Prop := Follows Runtime.editing a

abbrev Makes (a : Activity α) : Prop := Follows Runtime.making a

theorem Makes.edits {a : Activity α} (h : Makes a) : EditsHeap a := Follows.weaken h And.left

theorem Makes.thread {a : Activity α} (h : Makes a) (rt : Runtime) :
    (a.run rt).2.thread = rt.thread :=
  (h rt).2

theorem makes_note (move : Move) : Makes (note move) :=
  fun rt => ⟨⟨.refl, .push rt move, .refl _⟩, rfl⟩

theorem makes_text (content : String) : Makes (text content) :=
  fun rt => ⟨⟨.refl, .refl rt, .refl _⟩, rfl⟩

theorem makes_entryIdent : Makes entryIdent :=
  fun rt => ⟨⟨.refl, .refl rt, .refl _⟩, rfl⟩

theorem follows_ofExcept {course : Course Runtime} (result : Except CallError α) :
    Follows course (ofExcept result) := by
  cases result with
  | ok v => exact follows_pure v
  | error e => exact follows_throw e

theorem makes_allocateNew {o : Object} (new : o.New rt.heap) :
    Runtime.making.Leads rt ((allocate o).run rt).2 :=
  ⟨⟨.single (.push new), .of_found [.create o] Array.toList_push (Heap.get?_push_of_some o),
    .refl _⟩, rfl⟩

theorem makes_allocate {o : Object} (function : o.function? = none)
    (module : ∀ name names, o ≠ .module name names) : Makes (allocate o) :=
  fun _ => makes_allocateNew (Object.new_plain function module)

theorem makes_allocateFunction {f : Function} (new : f.New rt.heap) :
    Runtime.making.Leads rt ((allocate (.function f)).run rt).2 :=
  makes_allocateNew (Object.new_function new)

theorem makes_storeDict {r : Ref} {old : Dict Value} (found : rt.heap.get? r = some (.dict old))
    (new : Dict Value) : Runtime.making.Leads rt ((store r (.dict new)).run rt).2 := by
  rw [run_store found]
  exact ⟨⟨.single (.entries found new), .storing found _, .refl _⟩, rfl⟩

theorem makes_tuple (items : List Value) : Makes (tuple items) := makes_allocate rfl (by simp)

theorem makes_dict (entries : Dict Value) : Makes (allocate (.dict entries)) :=
  makes_allocate rfl (by simp)

theorem edits_modifyThread (f : Thread → Thread) : EditsHeap (modifyThread f) :=
  fun rt => ⟨.refl, .refl rt, .refl _⟩

theorem edits_holding (values : List Value) {body : Activity Value} (h : EditsHeap body) :
    EditsHeap (holding values body) := by
  intro rt
  obtain ⟨move, held⟩ := run_holding values body rt
  rw [held]
  obtain ⟨heap, notes, types⟩ := h { rt with ledger := rt.ledger.push (.take values) }
  exact ⟨heap, ((Runtime.Notes.push rt _).trans notes).trans (.push _ move), types⟩

end Activity
end Callables
