import Callables.Proofs.Ages
import Callables.Proofs.FlagChecks

namespace Callables

structure Link where
  receiver : Value
  wrapper : Value

namespace Link

def top (g : Value) : List Link → Value
  | [] => g
  | link :: _ => link.wrapper

def receivers (links : List Link) : List Value := (links.map receiver).reverse

theorem receivers_cons (link : Link) (rest : List Link) :
    receivers (link :: rest) = receivers rest ++ [link.receiver] := by
  simp [receivers]

end Link

namespace Runtime

/-- The chains that come about around `g`: each binding is of what the one before it has made, and
in between anything may happen that leaves the newest wrapper there. -/
inductive Chain (g : Value) : Runtime → List Link → Prop
  | start {rt : Runtime} (reachable : rt.Reachable) (known : rt.Knows g) : Chain g rt []
  | bind {rt rt' : Runtime} {links : List Link} {link : Link} (before : Chain g rt links)
      (known : rt.Knows link.receiver)
      (bound : (Activity.bindMethod (Link.top g links) link.receiver).run rt =
        (.ok link.wrapper, rt')) : Chain g rt' (link :: links)
  | later {rt rt' : Runtime} {links : List Link} (before : Chain g rt links)
      (reaches : rt.Reaches rt') (live : rt'.Knows (Link.top g links)) : Chain g rt' links

end Runtime

namespace Heap

/-- A bound wrapper as it is found on the heap. It calls what it wraps, unless that is a function
without a receiver. -/
structure Wraps (h : Heap) (callable : Value) (link : Link) (w : Function) : Prop where
  found : h.function? link.wrapper = some w
  wrapped : w.wrapped? = some callable
  receiver : w.receiver = some link.receiver
  calls : (w.entry = .boundMethod ∧ w.owner = none) ∨
    ∃ f, h.function? callable = some f ∧ f.receiver = none

def HasChain (h : Heap) (g : Value) : List Link → Prop
  | [] => True
  | link :: rest => (∃ w, h.Wraps (Link.top g rest) link w) ∧ h.HasChain g rest

end Heap

namespace Runtime

variable {rt rt' : Runtime} {g : Value} {links : List Link} {link : Link}

/-- A chain whose newest wrapper is still there is there as a whole: every wrapper keeps what it
wraps. -/
theorem Persists.hasChain (persists : rt.Persists rt') (sound : rt'.Sound)
    (chain : rt.heap.HasChain g links) (live : rt'.Knows (Link.top g links)) :
    rt'.heap.HasChain g links := by
  induction links with
  | nil => exact chain
  | cons link rest ih =>
    obtain ⟨⟨w, wraps⟩, inner⟩ := chain
    obtain ⟨w', found, alike⟩ := persists.function wraps.found live
    have wrapped : w'.wrapped? = some (Link.top g rest) := alike.wrapped.trans wraps.wrapped
    have below := sound.knows_wrapped found wrapped
    refine ⟨⟨w', found, wrapped, alike.receiver.trans wraps.receiver, ?_⟩, ih inner below⟩
    refine wraps.calls.imp (fun own => ⟨alike.entry.trans own.1, alike.owner.trans own.2⟩) ?_
    rintro ⟨f, hf, unbound⟩
    obtain ⟨f', hf', alike'⟩ := persists.function hf below
    exact ⟨f', hf', alike'.receiver.trans unbound⟩

/-- A binding that succeeds leaves a wrapper of the callable and the receiver behind. -/
theorem wraps_of_bindMethod {callable : Value}
    (bound : (Activity.bindMethod callable link.receiver).run rt = (.ok link.wrapper, rt')) :
    ∃ w, rt'.heap.Wraps callable link w := by
  obtain ⟨w, hw, made, heap⟩ := exists_wrapper_of_bindMethod bound
  refine ⟨w, ?_⟩
  rcases wrapper_cases hw with ⟨_, rfl, -⟩ | ⟨f, hf, unbound, -, rfl⟩
  · exact ⟨made, rfl, rfl, .inl ⟨rfl, rfl⟩⟩
  · obtain ⟨r, rfl, here⟩ := Heap.get?_of_function? (function?_of_baseFunction? hf)
    refine ⟨made, rfl, rfl, .inr ⟨f, ?_, unbound⟩⟩
    rw [heap]
    exact Heap.function?_of_get? (Heap.get?_push_of_some _ here)

theorem Chain.bind_ok (before : Chain g rt links) (receiver wrapper : Value)
    (known : rt.Knows receiver)
    (made : ((Activity.bindMethod (Link.top g links) receiver).run rt).1 = .ok wrapper) :
    Chain g ((Activity.bindMethod (Link.top g links) receiver).run rt).2
      (⟨receiver, wrapper⟩ :: links) :=
  before.bind known (Prod.ext made rfl)

/-- The wrappers of a chain that has come about are on the heap. -/
theorem Chain.present (h : Chain g rt links) :
    rt.Reachable ∧ rt.Knows (Link.top g links) ∧ rt.heap.HasChain g links := by
  induction h with
  | start reachable known => exact ⟨reachable, known, trivial⟩
  | bind _ known bound ih =>
    obtain ⟨reachable, live, chain⟩ := ih
    have changes := reachable.sound.changes_bindMethod live known bound
    have later := reachable.reaches changes.reaches
    have persists := reachable.sound.persists changes.reaches
    obtain ⟨w, wraps⟩ := wraps_of_bindMethod bound
    exact ⟨later, knows_of_function? wraps.found, ⟨w, wraps⟩,
      persists.hasChain later.sound chain (changes.grows.knows live)⟩
  | later _ reaches live ih =>
    obtain ⟨reachable, -, chain⟩ := ih
    have later := reachable.reaches reaches
    exact ⟨later, live, (reachable.sound.persists reaches).hasChain later.sound chain live⟩

end Runtime
end Callables
