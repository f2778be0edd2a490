import Callables.Proofs.Orderly

namespace Callables

/-- What a host-language call runs on: the code is that at the start of the call. -/
structure HostCall.Frames (host : HostCall) (frame : Frame) : Prop where
  function : frame.function = host.function
  code : frame.code = host.code
  parameters : frame.parameters = host.bound.parameters

namespace Heap

variable {liberty : Liberty} {h h' : Heap}

theorem Edits.closure (edits : Edits liberty h h') {r : Ref} {f : Function} {m : Metadata}
    (found : h.get? r = some (.function f)) (held : f.metadata? = some m) :
    ∃ f' m', h'.get? r = some (.function f') ∧ f'.metadata? = some m' ∧
      m'.closure = m.closure := by
  induction edits with
  | refl => exact ⟨f, m, found, held, rfl⟩
  | tail _ edit ih =>
    obtain ⟨f', m', found', held', same⟩ := ih
    cases edit with
    | push new => exact ⟨f', m', get?_push_of_some _ found', held', same⟩
    | @entries place _ other | @attributes place _ _ other =>
      have hr : r ≠ place := by
        intro hr
        rw [hr, other] at found'
        cases found'
      exact ⟨f', m', (get?_set_of_ne _ _ hr).trans found', held', same⟩
    | @metadata place g n n' _ _ there has set =>
      by_cases hr : r = place
      · subst hr
        obtain ⟨⟩ := there.symm.trans found'
        obtain ⟨⟩ := has.symm.trans held'
        exact ⟨_, n', get?_set_self _ (lt_size_of_get? there),
          Function.metadata?_withMetadata has n', (Metadata.sameBut_of_set? set).closure.trans same⟩
      · exact ⟨f', m', (get?_set_of_ne _ _ hr).trans found', held', same⟩

end Heap

/-- Putting together what a call has collected succeeds and edits the heap. -/
theorem Activity.run_mapM_edits {α : Type} {make : α → Activity Value}
    (edits : ∀ a, EditsHeap (make a)) (makes : ∀ a rt, ∃ v, ((make a).run rt).1 = .ok v)
    (collected : Option α) (rt : Runtime) :
    ∃ v rt', (collected.mapM make).run rt = (.ok v, rt') ∧ rt.heap.Edits .nobody rt'.heap := by
  cases collected with
  | none => exact ⟨none, rt, rfl, .refl⟩
  | some a =>
    obtain ⟨v, made⟩ := makes a rt
    have ran : ((some a).mapM make).run rt = (.ok (some v), ((make a).run rt).2) := by
      change (make a >>= fun v => pure (some v)).run rt = _
      rw [run_bind, show (make a).run rt = (.ok v, ((make a).run rt).2) from Prod.ext made rfl]
      rfl
    exact ⟨some v, _, ran, (edits a rt).heap⟩

namespace Runtime

variable {liberty : Liberty} {rt : Runtime}

/-- A host-language call runs the code that its function has. -/
theorem code_of_hostCall {lead : Value} {view : ArgsView} {host : HostCall}
    (ok : rt.hostCall lead view = .ok host) :
    ∃ r f m, host.function = .object r ∧ rt.heap.get? r = some (.function f) ∧
      f.metadata? = some m ∧ ∃ code, m.code = some code ∧
        rt.heap.get? code = some (.code host.code) := by
  unfold hostCall at ok
  dsimp only at ok
  split at ok
  · cases ok
  · rename_i m held
    split at ok
    · cases ok
    · rename_i c coded
      split at ok
      · cases ok
      · cases ok
        obtain ⟨f, found, held⟩ := Option.bind_eq_some_iff.mp held
        obtain ⟨r, same, there⟩ := Heap.get?_of_function? found
        obtain ⟨code, hc, coded⟩ := Option.bind_eq_some_iff.mp coded
        obtain ⟨o, ho, view⟩ := Option.bind_eq_some_iff.mp coded
        exact ⟨r, f, m, same, there, held, code, hc, Object.code?_eq_some.mp view ▸ ho⟩

/-- A body runs on a frame of the call, once the collected arguments have been put together. -/
theorem run_runHost_on_frame {lead : Value} {view : ArgsView} {host : HostCall}
    (ok : rt.hostCall lead view = .ok host) (call : Callee) :
    ∃ frame rt', host.Frames frame ∧ rt.heap.Edits .nobody rt'.heap ∧
      (Activity.runHost call lead view).run rt =
        (Activity.holding (frame.held ++ host.snapshot) (Activity.reported .call (fun _ => .ret)
          host.name (evaluate call frame host.code.body))).run rt' := by
  obtain ⟨positional, rt₁, packed, first⟩ := Activity.run_mapM_edits
    (fun items => (Activity.makes_tuple items).edits)
    (fun _ _ => ⟨_, rfl⟩) host.bound.positional rt
  obtain ⟨keywords, rt₂, packed', second⟩ := Activity.run_mapM_edits
    (fun entries => (Activity.makes_dict entries).edits)
    (fun _ _ => ⟨_, rfl⟩) host.bound.keywords rt₁
  refine ⟨{
    function := host.function, code := host.code
    parameters := host.bound.parameters, positional, keywords }, rt₂, ⟨rfl, rfl, rfl⟩,
    first.trans second, ?_⟩
  unfold Activity.runHost
  rw [Activity.run_get, ok]
  dsimp only
  rw [run_bind, packed]
  dsimp only
  rw [run_bind, packed']

structure Closed (liberty : Liberty) (rt : Runtime) : Prop where
  /-- A host-language function has a cell for each free variable of its code. -/
  functions : ∀ r f m, rt.heap.get? r = some (.function f) → liberty.covers f = false →
    f.kind = .defined m → ∃ code c, m.code = some code ∧ rt.heap.get? code = some (.code c) ∧
      (rt.heap.itemsAt m.closure).length = c.freeVariables.length
  /-- Every body runs on a frame of its call. -/
  bodies : ∀ call lead view host, rt.hostCall lead view = .ok host →
    ∃ frame rt', host.Frames frame ∧ rt.heap.Edits .nobody rt'.heap ∧
      (Activity.runHost call lead view).run rt =
        (Activity.holding (frame.held ++ host.snapshot) (Activity.reported .call (fun _ => .ret)
          host.name (evaluate call frame host.code.body))).run rt'
  /-- At every later moment a frame of the call has a cell exactly for each free variable of its own
  code. -/
  frames : ∀ lead view host f frame rt', rt.hostCall lead view = .ok host →
    rt.heap.function? host.function = some f → liberty.covers f = false → host.Frames frame →
    rt.heap.Edits liberty rt'.heap →
    ∀ i, (frame.cell? rt' i).isSome = true ↔ i < frame.code.freeVariables.length

/-- Code and closure of a function that runs fit each other. -/
theorem Occurs.fitting (h : rt.Occurs liberty) {lead : Value} {view : ArgsView} {host : HostCall}
    (ok : rt.hostCall lead view = .ok host) {f : Function}
    (found : rt.heap.function? host.function = some f) (covered : liberty.covers f = false) :
    ∃ r m, host.function = .object r ∧ rt.heap.get? r = some (.function f) ∧
      f.metadata? = some m ∧
      (rt.heap.itemsAt m.closure).length = host.code.freeVariables.length := by
  obtain ⟨r, g, m, same, there, held, code, hc, coded⟩ := code_of_hostCall ok
  rw [same, Heap.function?_of_get? there] at found
  obtain rfl := Option.some.inj found
  have matched := (h.orderly r g there).matched covered
  refine ⟨r, m, same, there, held, ?_⟩
  cases host : g.isHost with
  | true =>
    -- the code that runs is the one that the closure fits
    obtain ⟨code', c, hc', coded', cells⟩ := matched.host host m held
    obtain rfl := Option.some.inj (hc'.symm.trans hc)
    obtain ⟨⟩ := coded'.symm.trans coded
    exact cells
  | false =>
    rw [matched.native host m held] at hc
    cases hc

/-- Closures match the running code, wherever a program gets that exchanges code without a look
at the closure at most for functions that `liberty` covers. -/
theorem Occurs.closed (h : rt.Occurs liberty) : rt.Closed liberty := by
  refine ⟨?_, fun call lead view host ok => run_runHost_on_frame ok call, ?_⟩
  · intro r f m there covered kind
    have host : f.isHost = true := by simp [Function.isHost, kind]
    have held : f.metadata? = some m := by
      simp [Function.metadata?, FunctionKind.metadata?, kind]
    exact ((h.orderly r f there).matched covered).host host m held
  · intro lead view host f frame rt' ok found covered frames later i
    obtain ⟨r, m, same, there, held, cells⟩ := h.fitting ok found covered
    obtain ⟨f', m', there', held', closure⟩ := later.closure there held
    have sorted := (h.orderly r f there).sorted m held
    have items : rt'.heap.itemsAt m'.closure = rt.heap.itemsAt m.closure := by
      rw [closure]
      exact Function.itemsAt_carry sorted fun place _ => later.builds.carries place
    have cell : frame.cell? rt' i = (rt.heap.itemsAt m.closure)[i]? := by
      rw [← items]
      simp [Frame.cell?, Frame.metadata?, frames.function, same, Heap.function?_of_get? there',
        held']
    rw [cell, frames.code, ← cells]
    simp

end Runtime

namespace Session

def permits (liberty : Liberty) (s : Session) : List (Operation × Option String) → Bool
  | [] => true
  | o :: rest =>
    s.hasRoomFor o.1 && (s.overridden? o.1).all liberty.covers &&
      permits liberty (s.step o.1 o.2).2 rest

theorem Reached.run {liberty : Liberty} {s : Session} (h : s.Reached liberty)
    {operations : List (Operation × Option String)}
    (permitted : s.permits liberty operations = true) : (s.run operations).Reached liberty := by
  induction operations generalizing s with
  | nil => exact h
  | cons o rest ih =>
    obtain ⟨here, later⟩ := Bool.and_eq_true_iff.mp permitted
    obtain ⟨room, allowed⟩ := Bool.and_eq_true_iff.mp here
    exact ih (h.step o.1 room allowed o.2) later

/-- A function with one captured variable that gives itself other code when it is called. -/
def recoding : Session :=
  (start .standard .empty).run [
    (.newCode ⟨"other", none, none, .ofNames [], ["y"], .cell 0⟩, some "other"),
    (.newCode ⟨"f", none, none, .ofNames [], ["x"],
      .sequence [.setAttribute .function "__code__" (.constant (.kept "other")), .cell 0]⟩,
      some "code"),
    (.newHostFunction (.kept "code") (.dict []) none (some (.tuple [.int 7])), some "f")]

theorem recoding_reached : recoding.Reached .natives :=
  (Reached.start _ _).run (by decide +kernel)

end Session

namespace Runtime

/-- The body that the call runs gives its own function other code, without a free variable of that
name; its frame still has the one cell that its own code reads. -/
theorem closed_recoding :
    ∃ host frame, Session.recoding.runtime.hostCall (.object 4) ⟨[], []⟩ = .ok host ∧
      host.Frames frame ∧ frame.code.freeVariables.length = 1 ∧
      let ran := (Activity.call (.object 4) [] []).run Session.recoding.runtime
      ran.1.toOption = some (.int 7) ∧
        ((ran.2.heap.function? (.object 4)).bind Function.metadata?).bind Metadata.code = some 0 ∧
        (frame.cell? ran.2 0).isSome = true ∧ (frame.cell? ran.2 1).isSome = false := by
  have closed := Occurs.closed (.of_session Session.recoding_reached)
  have runs : (Session.recoding.runtime.hostCall (.object 4) ⟨[], []⟩).toOption.map
      (fun host => (host.function, host.code.freeVariables.length)) = some (.object 4, 1) := by
    decide +kernel
  cases ok : Session.recoding.runtime.hostCall (.object 4) ⟨[], []⟩ with
  | error e =>
    rw [ok] at runs
    cases runs
  | ok host =>
    rw [ok] at runs
    obtain ⟨function, one⟩ := Prod.mk.inj (Option.some.inj runs)
    obtain ⟨frame, -, frames, -⟩ := closed.bodies Activity.call (.object 4) ⟨[], []⟩ host ok
    have hosted : (Session.recoding.runtime.heap.function? (.object 4)).map Function.isHost =
        some true := by
      decide +kernel
    obtain ⟨f, found, host⟩ := Option.map_eq_some_iff.mp hosted
    have held : Liberty.natives.covers f = false := by simp [Liberty.covers, host]
    have cells := closed.frames _ _ _ f frame _ ok (function ▸ found) held frames
      ((Activity.edits_call (.object 4) [] [] Session.recoding.runtime).heap.free .natives)
    rw [frames.code, one] at cells
    refine ⟨_, frame, rfl, frames, frames.code ▸ one, by decide +kernel, by decide +kernel,
      (cells 0).mpr (by simp), ?_⟩
    exact Bool.eq_false_iff.mpr fun there => absurd ((cells 1).mp there) (by simp)

end Runtime
end Callables
