import Callables.Dict
import Callables.Error
import Callables.Parameters

namespace Callables

structure Defaults (α : Type) where
  /-- Belongs to the last positional parameters. -/
  positional : List α
  keywordOnly : Dict α

structure Bound (α : Type) where
  parameters : List α
  positional : Option (List α)
  keywords : Option (Dict α)

namespace Binding

variable {α : Type}

/-- The parameters while they are being filled, and the keywords collected so far. -/
structure Partial (α : Type) where
  slots : List (Option α)
  extra : Dict α

def place (p : Parameters) (args : List α) : List (Option α) :=
  (args.take p.positional).map some ++
    List.replicate (p.positional - args.length + p.keywordOnly) none

def placeKeyword (function : String) (p : Parameters) (filled : Partial α)
    (keyword : String × α) : Except BindingError (Partial α) :=
  match p.indexOf? keyword.1 with
  | some i =>
    match filled.slots[i]? with
    | some (some _) => .error (.duplicateArgument function (p.nameAt i))
    | _ => .ok { filled with slots := filled.slots.set i (some keyword.2) }
  | none =>
    if p.collectsKeywords then .ok { filled with extra := filled.extra.set keyword.1 keyword.2 }
    else .error (.unexpectedKeyword function keyword.1)

/-- The default of a positional parameter. The defaults end with the last parameter; when there
are more of them than parameters, the first default goes to the first parameter. -/
def positionalDefault? (p : Parameters) (defaults : List α) (index : Nat) : Option α :=
  let first := p.positional - defaults.length
  if first ≤ index then defaults[index - first]? else none

def complete (function : String) (p : Parameters) (defaults : Defaults α)
    (slot : Option α × Nat) : Except BindingError α :=
  match slot with
  | (some value, _) => .ok value
  | (none, i) =>
    if i < p.positional then
      match positionalDefault? p defaults.positional i with
      | some value => .ok value
      | none => .error (.missingPositional function (p.nameAt i))
    else
      match defaults.keywordOnly.get? (p.nameAt i) with
      | some value => .ok value
      | none => .error (.missingKeywordOnly function (p.nameAt i))

end Binding

def Parameters.bind {α : Type} (p : Parameters) (function : String) (defaults : Defaults α)
    (args : List α) (keywords : List (String × α)) : Except BindingError (Bound α) := do
  if p.positional < args.length ∧ !p.collectsPositional then
    throw (.tooManyPositional function p.positional args.length)
  let filled ← keywords.foldlM (Binding.placeKeyword function p)
    { slots := Binding.place p args, extra := Dict.empty }
  let parameters ← filled.slots.zipIdx.mapM (Binding.complete function p defaults)
  return {
    parameters
    positional := if p.collectsPositional then some (args.drop p.positional) else none
    keywords := if p.collectsKeywords then some filled.extra else none }

end Callables
