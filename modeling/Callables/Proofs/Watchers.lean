import Callables.Proofs.Referring
import Mathlib.Data.List.Basic

namespace Callables

theorem Heap.marksAt_of_get? {h : Heap} {r : Ref} {o : Object} (found : h.get? r = some o) :
    h.marksAt r = o.marks := by
  simp [marksAt, function?, object?, found, Object.marks]

def marksOf (registered : List (Ref × Int)) (r : Ref) : List Int :=
  (registered.filter (·.1 == r)).map Prod.snd

theorem marksOf_append (registered more : List (Ref × Int)) (r : Ref) :
    marksOf (registered ++ more) r = marksOf registered r ++ marksOf more r := by
  simp [marksOf]

/-- The marks that these callables leave: each of them once, all of a callable one after the other,
in the order in which they were registered. -/
def Announced (registered : List (Ref × Int)) (which : Ref → Prop) (marks : List Int) : Prop :=
  ∃ released : List Ref, released.Nodup ∧
    (∀ r, r ∈ released ↔ marksOf registered r ≠ [] ∧ which r) ∧
    marks = released.flatMap (marksOf registered)

/-- What is announced in two parts, of which the first one is not touched by the second. -/
theorem Announced.append {registered registered' : List (Ref × Int)} {past now which : Ref → Prop}
    {marks marks' : List Int} (first : Announced registered past marks)
    (second : Announced registered' now marks')
    (same : ∀ r, past r → marksOf registered' r = marksOf registered r)
    (apart : ∀ r, past r → ¬ now r)
    (all : ∀ r, marksOf registered' r ≠ [] → (which r ↔ past r ∨ now r)) :
    Announced registered' which (marks ++ marks') := by
  obtain ⟨released, nodup, mem, rfl⟩ := first
  obtain ⟨released', nodup', mem', rfl⟩ := second
  have before (r : Ref) : r ∈ released ↔ marksOf registered' r ≠ [] ∧ past r := by
    rw [mem]
    exact and_congr_left fun here => by rw [same r here]
  refine ⟨released ++ released', ?_, fun r => ?_, ?_⟩
  · refine List.nodup_append.mpr ⟨nodup, nodup', ?_⟩
    intro r hr r' hr' both
    subst both
    exact apart r ((mem r).mp hr).2 ((mem' r).mp hr').2
  · rw [List.mem_append, before, mem', ← and_or_left]
    exact and_congr_right fun marked => (all r marked).symm
  · rw [List.flatMap_append]
    congr 1
    exact List.flatMap_congr fun r hr => (same r ((mem r).mp hr).2).symm

/-- The marks on a heap are those registered. -/
structure Pending (registered : List (Ref × Int)) (h : Heap) : Prop where
  marks : ∀ {r o}, h.get? r = some o → o.marks = marksOf registered r
  unused : ∀ {r}, h.size ≤ r → marksOf registered r = []

namespace Pending

variable {registered : List (Ref × Int)} {h h' : Heap}

theorem builds (pending : Pending registered h) (builds : h.Builds h') :
    Pending registered h' := by
  refine ⟨?_, fun beyond => pending.unused (Nat.le_trans builds.size beyond)⟩
  intro r o' found'
  cases found : h.get? r with
  | some o =>
    obtain ⟨o'', there, same⟩ := builds.old found
    obtain rfl := Option.some.inj (there.symm.trans found')
    exact (Object.marks_of_core same).trans (pending.marks found)
  | none =>
    obtain ⟨beyond, unwatched, -⟩ := builds.new found found'
    exact unwatched.trans (pending.unused beyond).symm

theorem watch (pending : Pending registered h) {r : Ref} {f : Function} (mark : Int)
    (found : h.get? r = some (.function f)) :
    Pending (registered ++ [(r, mark)]) (h.set r (.function (f.watched mark))) := by
  have inside := Heap.lt_size_of_get? found
  constructor
  · intro x o ho
    by_cases same : x = r
    · subst same
      rw [Heap.get?_set_self _ inside] at ho
      obtain rfl := Option.some.inj ho
      have before : f.watchers = marksOf registered x := pending.marks found
      rw [marksOf_append, ← before]
      simp [Object.marks, Object.function?, Function.watched, marksOf]
    · rw [Heap.get?_set_of_ne h _ same] at ho
      rw [marksOf_append, pending.marks ho]
      simp [marksOf, Ne.symm same]
  · intro x beyond
    have size : (h.set r (.function (f.watched mark))).size = h.size := by
      simp [Heap.size, Heap.set]
    rw [size] at beyond
    have apart : r ≠ x := Nat.ne_of_lt (Nat.lt_of_lt_of_le inside beyond)
    rw [marksOf_append, pending.unused beyond]
    simp [marksOf, apart]

theorem sweep (pending : Pending registered h) (roots : List Value) :
    Pending registered (h.sweep roots).heap := by
  have fair := h.sweep_fair roots
  exact ⟨fun found => pending.marks (fair.kept found),
    fun beyond => pending.unused (fair.size ▸ beyond)⟩

theorem mem_marksAt_iff (pending : Pending registered h) (r : Ref) :
    h.marksAt r ≠ [] ↔ marksOf registered r ≠ [] ∧ ∃ o, h.get? r = some o := by
  cases found : h.get? r with
  | some o => simp [Heap.marksAt_of_get? found, pending.marks found]
  | none => simp [Heap.marksAt, Heap.function?, Heap.object?, found]

end Pending

/-- Elements are brought into the order of another list, as far as that one has them. -/
theorem nodup_reordered {order elements : List Ref} (distinct : order.Nodup)
    (distinct' : elements.Nodup) :
    (order.filter (elements.contains ·) ++ elements.filter (!order.contains ·)).Nodup := by
  refine List.nodup_append.mpr ⟨distinct.filter _, distinct'.filter _, ?_⟩
  intro a ha b hb same
  subst same
  simp at ha hb
  exact hb.2 ha.1

theorem mem_reordered {order elements : List Ref} {r : Ref} :
    r ∈ order.filter (elements.contains ·) ++ elements.filter (!order.contains ·) ↔
      r ∈ elements := by
  by_cases here : r ∈ order <;> simp [here]

/-- The course on which no callables are made. -/
def Session.callablesOld : Course Session where
  Leads s s' := ∀ r f, s'.runtime.heap.get? r = some (.function f) →
    s.runtime.heap.get? r = some (.function f)
  refl _ _ _ found := found
  trans first second r f found := first r f (second r f found)

theorem Program.reads_callablesOld : Reads Session.callablesOld where
  text _ _ _ _ found := found
  allocate {o} function _ s r f found := by
    change (s.runtime.heap.push o).get? r = _ at found
    rw [Heap.get?_push] at found
    split at found
    · obtain rfl := Option.some.inj found
      cases function
    · exact found

namespace Session

variable {s : Session} {registered : List (Ref × Int)}

/-- A mark is registered with a callable that the session has. -/
theorem live_of_registration? {operation : Operation} {r : Ref} {mark : Int}
    (watch : s.registration? operation = some (r, mark)) :
    ∃ f, s.runtime.heap.get? r = some (.function f) := by
  cases operation with
  | watch function mark' =>
    have old := Program.reads_callablesOld.readObject Object.function? function s
    simp only [registration?] at watch
    rcases read : (Program.readFunction function).run s with ⟨result, s'⟩
    rw [show (Program.readObject Object.function? function).run s = _ from read] at old
    rw [read] at watch
    cases result with
    | error e => cases watch
    | ok found =>
      obtain ⟨place, f⟩ := found
      obtain ⟨rfl, -⟩ := Prod.mk.inj (Option.some.inj watch)
      exact ⟨f, old place f (readFunction_found read)⟩
  | _ => cases watch

theorem registration?_of_malformed {operation : Operation}
    (malformed : (operation.run.run s).1 = .error .malformed) :
    s.registration? operation = none := by
  rcases s.run_cases operation with ⟨none, -⟩ | ⟨_, _, _, _, -, ⟨a, ok⟩, -⟩
  · exact none
  · rw [malformed] at ok
    cases ok

theorem pending_run (pending : Pending registered s.runtime.heap) (operation : Operation) :
    Pending (registered ++ (s.registration? operation).toList)
      (operation.run.run s).2.runtime.heap := by
  rcases s.run_cases operation with
    ⟨none, builds, -⟩ | ⟨r, mark, _, _, watch, -, ⟨builds, -⟩, found, -, heap⟩
  · rw [none]
    simpa using pending.builds builds
  · rw [watch, heap]
    exact (pending.builds builds).watch mark found

theorem run_marks (s : Session) (operation : Operation) :
    (operation.run.run s).2.marks = s.marks := by
  rcases s.run_cases operation with
    ⟨-, -, same⟩ | ⟨_, _, _, _, -, -, ⟨-, same⟩, -, marks, -⟩
  · exact same
  · exact marks.trans same

theorem isSome_get?_run (s : Session) (operation : Operation) {r : Ref}
    (inside : r < s.runtime.heap.size) :
    ((operation.run.run s).2.runtime.heap.get? r).isSome = (s.runtime.heap.get? r).isSome := by
  rcases s.run_cases operation with
    ⟨-, builds, -⟩ | ⟨place, _, _, _, -, -, ⟨builds, -⟩, found, -, heap⟩
  · exact builds.isSome_get? inside
  · rw [heap, ← builds.isSome_get? inside]
    by_cases same : r = place
    · subst same
      simp [Heap.get?_set_self _ (Heap.lt_size_of_get? found), found]
    · rw [Heap.get?_set_of_ne _ _ same]

/-- The callables whose watchers are told at the end of a step, each once. -/
theorem settle_told (s before : Session) : ∃ released : List Ref, released.Nodup ∧
    (∀ r, r ∈ released ↔ s.runtime.heap.marksAt r ≠ [] ∧
      (s.settle before).runtime.heap.get? r = none) ∧
    (s.settle before).marks.toList =
      s.marks.toList ++ released.flatMap s.runtime.heap.marksAt := by
  have swept := s.runtime.heap.told_sweep s.roots
  have replayed := Sweep.told_replay s.runtime.heap (before.counts s.runtime.heap.size)
    s.runtime.ledger
  refine ⟨_, nodup_reordered replayed.nodup swept.nodup, fun r => ?_, ?_⟩
  · rw [mem_reordered]
    exact swept.mem r
  · have same : (s.runtime.heap.sweep s.roots).told.contains =
        fun r => (s.runtime.heap.sweep s.roots).told.toList.contains r := by
      funext r
      simp
    simp [settle, same]

/-- The sessions that steps lead to, with the marks registered on the way, oldest first. -/
inductive Recorded : Session → List (Ref × Int) → Prop
  | start (config : Config) (entries : Dict Entry) : Recorded (start config entries) []
  | step {s : Session} {registered : List (Ref × Int)} (before : Recorded s registered)
      (operation : Operation) (room : s.hasRoomFor operation = true) (label : Option String) :
      Recorded (s.step operation label).2 (registered ++ (s.registration? operation).toList)

namespace Recorded

theorem reachable (h : s.Recorded registered) : s.Reachable := by
  induction h with
  | start config entries => exact .start config entries
  | step _ operation room label ih => exact ih.step operation room label

theorem pending (h : s.Recorded registered) : Pending registered s.runtime.heap := by
  induction h with
  | start config entries =>
    refine ⟨fun found => ?_, fun _ => rfl⟩
    exact absurd found (by simp [Session.start, Runtime.start, Heap.get?, Heap.empty])
  | @step s registered _ operation room label ih =>
    rcases s.step_cases operation label with ⟨malformed, same⟩ | ⟨after, heap, -, settled⟩
    · rw [same, registration?_of_malformed malformed]
      simpa using ih
    · rw [settled]
      have ran : Pending _ after.runtime.heap := heap ▸ pending_run ih operation
      exact ran.sweep after.roots

theorem marksOf_step (h : s.Recorded registered) (operation : Operation) {r : Ref}
    (unreferred : ¬ s.Refers (.object r)) :
    marksOf (registered ++ (s.registration? operation).toList) r = marksOf registered r := by
  rw [marksOf_append]
  cases watch : s.registration? operation with
  | none => simp [marksOf]
  | some watched =>
    obtain ⟨place, mark⟩ := watched
    obtain ⟨f, found⟩ := live_of_registration? watch
    have apart : place ≠ r := by
      intro same
      exact unreferred ((h.reachable.live_iff r).mp ⟨_, same ▸ found⟩)
    simp [marksOf, apart]

/-- A callable with marks is there after a run if and only if it was there before. -/
theorem live_run_iff (h : s.Recorded registered) {operation : Operation} {r : Ref}
    (marked : marksOf (registered ++ (s.registration? operation).toList) r ≠ []) :
    (∃ o, (operation.run.run s).2.runtime.heap.get? r = some o) ↔ s.Refers (.object r) := by
  have inside : r < s.runtime.heap.size := by
    by_contra beyond
    have unreferred : ¬ s.Refers (.object r) := by
      rw [← h.reachable.live_iff]
      intro ⟨o, found⟩
      exact beyond (Heap.lt_size_of_get? found)
    rw [h.marksOf_step operation unreferred] at marked
    exact marked (h.pending.unused (Nat.le_of_not_lt beyond))
  rw [← h.reachable.live_iff, ← Option.isSome_iff_exists, ← Option.isSome_iff_exists,
    s.isSome_get?_run operation inside]

theorem unreferred_step (h : s.Recorded registered) {operation : Operation}
    (room : s.hasRoomFor operation = true) (label : Option String) {r : Ref}
    (marked : marksOf (registered ++ (s.registration? operation).toList) r ≠ [])
    (unreferred : ¬ s.Refers (.object r)) :
    ¬ (s.step operation label).2.Refers (.object r) := by
  rw [← (h.reachable.step operation room label).live_iff]
  rcases s.step_cases operation label with ⟨-, same⟩ | ⟨after, heap, -, settled⟩
  · rw [same, h.reachable.live_iff]
    exact unreferred
  · rw [settled]
    intro ⟨o, found⟩
    have before := (after.runtime.heap.sweep_fair after.roots).kept found
    rw [heap] at before
    exact unreferred ((h.live_run_iff marked).mp ⟨o, before⟩)

/-- A step tells the watchers of the callables that lose their last reference in it. -/
theorem step_told (h : s.Recorded registered) {operation : Operation}
    (room : s.hasRoomFor operation = true) (label : Option String) :
    ∃ marks, (s.step operation label).2.marks.toList = s.marks.toList ++ marks ∧
      Announced (registered ++ (s.registration? operation).toList)
        (fun r => s.Refers (.object r) ∧ ¬ (s.step operation label).2.Refers (.object r))
        marks := by
  have later := h.reachable.step operation room label
  rcases s.step_cases operation label with ⟨-, same⟩ | ⟨after, heap, marks, settled⟩
  · rw [same]
    exact ⟨[], by simp, [], by simp, by simp, by simp⟩
  · rw [settled] at later ⊢
    have pending : Pending (registered ++ (s.registration? operation).toList)
        after.runtime.heap := heap ▸ pending_run h.pending operation
    obtain ⟨released, nodup, mem, told⟩ := after.settle_told s
    have left : after.marks = s.marks := marks.trans (s.run_marks operation)
    rw [left] at told
    refine ⟨_, told, released, nodup, fun r => ?_, ?_⟩
    · have gone : (after.settle s).runtime.heap.get? r = none ↔
          ¬ (after.settle s).Refers (.object r) := by
        rw [← later.live_iff]
        simp [Option.eq_none_iff_forall_ne_some]
      rw [mem, gone, pending.mem_marksAt_iff, and_assoc]
      refine and_congr_right fun marked => and_congr_left fun _ => ?_
      rw [heap]
      exact h.live_run_iff marked
    · refine List.flatMap_congr fun r hr => ?_
      obtain ⟨-, o, found⟩ := (pending.mem_marksAt_iff r).mp ((mem r).mp hr).1
      exact (Heap.marksAt_of_get? found).trans (pending.marks found)

/-- Over a whole run the watchers of a callable have been told once, if nothing refers to it any
more, and not at all as long as something does. -/
theorem run_told (h : s.Recorded registered) :
    Announced registered (fun r => ¬ s.Refers (.object r)) s.marks.toList := by
  induction h with
  | start config entries => exact ⟨[], by simp, by simp [marksOf], rfl⟩
  | @step s registered before operation room label ih =>
    obtain ⟨marks, told, announced⟩ := before.step_told room label
    rw [told]
    refine ih.append announced (fun r => before.marksOf_step operation)
      (fun r unreferred here => unreferred here.1) fun r marked => ?_
    constructor
    · intro gone
      by_cases referred : s.Refers (.object r)
      · exact .inr ⟨referred, gone⟩
      · exact .inl referred
    · intro gone
      rcases gone with unreferred | ⟨-, gone⟩
      · exact before.unreferred_step room label marked unreferred
      · exact gone

/-- Watchers are told when the last reference goes. Objects are there just as long as something
refers to them. Over a whole run the marks left are those of the callables to which nothing refers
any more, each of them once; and each step leaves the marks of the callables that lose their last
reference in it, all marks of a callable one after the other in the order in which they were
registered. -/
theorem watchers_told (h : s.Recorded registered) :
    (∀ r, (∃ o, s.runtime.heap.get? r = some o) ↔ s.Refers (.object r)) ∧
    Announced registered (fun r => ¬ s.Refers (.object r)) s.marks.toList ∧
    ∀ (operation : Operation) (label : Option String), s.hasRoomFor operation = true →
      ∃ marks, (s.step operation label).2.marks.toList = s.marks.toList ++ marks ∧
        Announced (registered ++ (s.registration? operation).toList)
          (fun r => s.Refers (.object r) ∧ ¬ (s.step operation label).2.Refers (.object r))
          marks :=
  ⟨h.reachable.live_iff, h.run_told, fun _ label room => h.step_told room label⟩

end Recorded

def registrations : Session → List (Operation × Option String) → List (Ref × Int)
  | _, [] => []
  | s, o :: rest => (s.registration? o.1).toList ++ registrations (s.step o.1 o.2).2 rest

theorem Recorded.run (h : s.Recorded registered) {operations : List (Operation × Option String)}
    (room : s.hasRoom operations = true) :
    (s.run operations).Recorded (registered ++ s.registrations operations) := by
  induction operations generalizing s registered with
  | nil =>
    rw [registrations, List.append_nil]
    exact h
  | cons o rest ih =>
    obtain ⟨here, later⟩ := Bool.and_eq_true_iff.mp room
    rw [registrations, ← List.append_assoc]
    exact ih (h.step o.1 here o.2) later

/-- Makes a callable that is watched twice and that only a wrapper holds, which is watched in
between. -/
def wrapping : List (Operation × Option String) := [
  (.define "m" ⟨"m", .fast, .record, .fast, none, false⟩, none),
  (.newBuiltinFunction "m" none none, some "f"),
  (.watch (.kept "f") 1, none),
  (.bindMethod (.kept "f") (.int 5), some "bound"),
  (.watch (.kept "bound") 2, none),
  (.watch (.kept "f") 3, none),
  (.drop "f", none)]

def wrapped : Session := (start .standard .empty).run wrapping

theorem wrapped_recorded : wrapped.Recorded [(0, 1), (1, 2), (0, 3)] := by
  have registered : (start .standard .empty).registrations wrapping =
      [(0, 1), (1, 2), (0, 3)] := by decide +kernel
  have recorded := (Recorded.start .standard .empty).run
    (show (start .standard .empty).hasRoom wrapping = true by decide +kernel)
  rw [registered] at recorded
  exact recorded

/-- The wrapper goes, and the callable with it; the marks of each stay together. -/
theorem watchers_told_wrapped :
    wrapped.Recorded [(0, 1), (1, 2), (0, 3)] ∧
    (wrapped.step (.drop "bound") none).2.marks.toList = [2, 1, 3] ∧
    (∀ r, (∃ o, wrapped.runtime.heap.get? r = some o) ↔ wrapped.Refers (.object r)) ∧
    Announced [(0, 1), (1, 2), (0, 3)] (fun r => ¬ wrapped.Refers (.object r))
      wrapped.marks.toList ∧
    ∃ marks, (wrapped.step (.drop "bound") none).2.marks.toList =
        wrapped.marks.toList ++ marks ∧
      Announced ([(0, 1), (1, 2), (0, 3)] ++ (wrapped.registration? (.drop "bound")).toList)
        (fun r => wrapped.Refers (.object r) ∧
          ¬ (wrapped.step (.drop "bound") none).2.Refers (.object r)) marks := by
  obtain ⟨live, whole, steps⟩ := wrapped_recorded.watchers_told
  exact ⟨wrapped_recorded, by decide +kernel, live, whole,
    steps (.drop "bound") none (by decide +kernel)⟩

end Session
end Callables
