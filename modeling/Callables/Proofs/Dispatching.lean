import Callables.Proofs.BoundCalls

namespace Callables

namespace Entry

def opening (entry : Entry) (t : Thread) : Thread :=
  let t := { t.enter with counts := t.counts.record entry.convention }
  if entry.flags.has .host then t else t.emit ⟨.nativeCall, entry.name⟩

def closing (entry : Entry) (ok : Bool) (t : Thread) : Thread :=
  let t :=
    if entry.flags.has .host then t
    else t.emit ⟨if ok then .nativeReturn else .nativeError, entry.name⟩
  t.leave

end Entry

namespace Thread

structure Level where
  depth : Nat
  limit : UInt32
deriving DecidableEq

def level (t : Thread) : Level := ⟨t.depth, t.limit⟩

theorem level_emit (t : Thread) (e : Event) : (t.emit e).level = t.level := by
  unfold emit
  split <;> rfl

theorem level_opening (entry : Entry) (t : Thread) :
    (entry.opening t).level = ⟨t.depth + 1, t.limit⟩ := by
  unfold Entry.opening
  dsimp only
  split
  · rfl
  · rw [level_emit]
    rfl

/-- An entry point that ends on the level on which it began leaves the level before. -/
theorem level_closing {entry : Entry} {t t' : Thread} (h : t'.level = (entry.opening t).level)
    (ok : Bool) : (entry.closing ok t').level = t.level := by
  have left : (entry.closing ok t').level = ⟨t'.level.depth - 1, t'.level.limit⟩ := by
    unfold Entry.closing
    dsimp only
    split
    · rfl
    · rw [← level_emit t' ⟨if ok then .nativeReturn else .nativeError, entry.name⟩]
      rfl
  rw [left, h, level_opening]
  rfl

end Thread

namespace Activity

def around (before : Thread → Thread) (after : Bool → Thread → Thread)
    (body : Activity Value) : Activity Value :=
  ExceptT.mk fun rt =>
    let ran := body.run { rt with thread := before rt.thread }
    (ran.1, { ran.2 with thread := after ran.1.isOk ran.2.thread })

theorem run_around (before : Thread → Thread) (after : Bool → Thread → Thread)
    (body : Activity Value) (rt : Runtime) :
    (around before after body).run rt =
      (let ran := body.run { rt with thread := before rt.thread }
       (ran.1, { ran.2 with thread := after ran.1.isOk ran.2.thread })) := rfl

theorem run_reported (start : EventKind) (stop : Bool → EventKind) (name : String)
    (body : Activity Value) (rt : Runtime) :
    (reported start stop name body).run rt =
      (around (·.emit ⟨start, name⟩) (fun ok => (·.emit ⟨stop ok, name⟩)) body).run rt := by
  have started : (emit start name).run rt =
      (.ok (), { rt with thread := rt.thread.emit ⟨start, name⟩ }) := rfl
  unfold reported
  rw [run_around, run_bind, started]
  dsimp only
  rw [run_bind, run_observe]
  rcases body.run { rt with thread := rt.thread.emit ⟨start, name⟩ } with ⟨_ | _, _⟩ <;> rfl

/-- A call that is accepted and finds a level runs its entry point between opening and closing. -/
theorem run_enter_ok {rt : Runtime} (room : rt.thread.hasRoom = true) (call : Callee)
    (entry : Entry) (delivery : Delivery entry.convention) :
    (enter (some call) entry (.ok delivery)).run rt =
      (around entry.opening entry.closing (runNative call entry.native delivery)).run rt := by
  have counted (thread : Thread) : (modifyThread fun t =>
      { t with counts := t.counts.record entry.convention }).run { rt with thread } =
      (.ok (), { rt with
        thread := { thread with counts := thread.counts.record entry.convention } }) := rfl
  unfold enter
  dsimp only
  rw [run_get, room]
  dsimp only
  rw [run_nested, run_around, run_bind, counted]
  dsimp only
  cases host : entry.flags.has .host with
  | true =>
    simp only [Entry.opening, Entry.closing, host, if_true]
    rfl
  | false =>
    simp only [Entry.opening, Entry.closing, host, Bool.false_eq_true, if_false, run_reported]
    rfl

section Dispatches

variable {rt : Runtime} {callable : Value} {f : Function} {args : List Value}
  {keywords : Keywords}

theorem run_dispatchWith_refused {e : CallError}
    (refused : rt.deliver callable f args keywords = .error e) (call : Option Callee) :
    (dispatchWith call callable f args keywords).run rt =
      (.error e, { rt with thread := { rt.thread with counts := rt.thread.counts.reject } }) := by
  unfold dispatchWith
  rw [run_get, refused]
  rfl

theorem run_dispatchWith_limited {delivery : Delivery f.entry.convention}
    (accepted : rt.deliver callable f args keywords = .ok delivery)
    (full : rt.thread.hasRoom = false) (call : Option Callee) :
    (dispatchWith call callable f args keywords).run rt =
      (.error (.recursionLimit f.entry.name rt.thread.limit), rt) := by
  unfold dispatchWith
  rw [run_get, accepted]
  unfold enter
  dsimp only
  rw [run_get, full]
  cases call <;> rfl

theorem run_dispatchWith_entered {delivery : Delivery f.entry.convention}
    (accepted : rt.deliver callable f args keywords = .ok delivery)
    (room : rt.thread.hasRoom = true) (call : Callee) :
    (dispatchWith (some call) callable f args keywords).run rt =
      (around f.entry.opening f.entry.closing (runNative call f.entry.native delivery)).run rt := by
  unfold dispatchWith
  rw [run_get, accepted]
  exact run_enter_ok room call f.entry delivery

end Dispatches

end Activity
end Callables
