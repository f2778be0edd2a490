import Callables.Convention

namespace Callables

structure CallCounts where
  noArgs : Nat
  single : Nat
  varArgs : Nat
  varArgsKeywords : Nat
  fast : Nat
  fastKeywords : Nat
  rejected : Nat
deriving DecidableEq, Inhabited

namespace CallCounts

def zero : CallCounts := ⟨0, 0, 0, 0, 0, 0, 0⟩

def total (c : CallCounts) : Nat :=
  c.noArgs + c.single + c.varArgs + c.varArgsKeywords + c.fast + c.fastKeywords

def record (c : CallCounts) : Convention → CallCounts
  | .noArgs => { c with noArgs := c.noArgs + 1 }
  | .single => { c with single := c.single + 1 }
  | .varArgs => { c with varArgs := c.varArgs + 1 }
  | .varArgsKeywords => { c with varArgsKeywords := c.varArgsKeywords + 1 }
  | .fast => { c with fast := c.fast + 1 }
  | .fastKeywords => { c with fastKeywords := c.fastKeywords + 1 }

def reject (c : CallCounts) : CallCounts := { c with rejected := c.rejected + 1 }

end CallCounts

inductive EventKind
  | call
  | ret
  | nativeCall
  | nativeReturn
  | nativeError
deriving DecidableEq, Inhabited

namespace EventKind

def name : EventKind → String
  | .call => "call"
  | .ret => "return"
  | .nativeCall => "c_call"
  | .nativeReturn => "c_return"
  | .nativeError => "c_exception"

end EventKind

structure Event where
  kind : EventKind
  name : String
deriving DecidableEq, Inhabited

namespace Event

def text (e : Event) : String := s!"{e.kind.name}:{e.name}"

end Event

structure Profiler where
  remaining : Option Nat
deriving DecidableEq, Inhabited

namespace Profiler

/-- The profiler after one more event; it removes itself with the last event it was made for. -/
def afterEvent (p : Profiler) : Option Profiler :=
  match p.remaining with
  | none => some p
  | some n => if n ≤ 1 then none else some ⟨some (n - 1)⟩

end Profiler

structure Thread where
  depth : Nat
  limit : UInt32
  counts : CallCounts
  profiler : Option Profiler
  log : Array Event
deriving DecidableEq, Inhabited

namespace Thread

def start (limit : UInt32) : Thread := ⟨0, limit, .zero, none, #[]⟩

def hasRoom (t : Thread) : Bool := t.depth < t.limit.toNat

def room (t : Thread) : Nat := t.limit.toNat - t.depth

def enter (t : Thread) : Thread := { t with depth := t.depth + 1 }

def leave (t : Thread) : Thread := { t with depth := t.depth - 1 }

/-- A limit of zero is ignored. -/
def withLimit (t : Thread) (limit : UInt32) : Thread :=
  if limit = 0 then t else { t with limit }

def emit (t : Thread) (e : Event) : Thread :=
  match t.profiler with
  | none => t
  | some p => { t with log := t.log.push e, profiler := p.afterEvent }

end Thread
end Callables
