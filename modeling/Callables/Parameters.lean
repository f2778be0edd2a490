namespace Callables

structure Parameters where
  positional : Nat
  keywordOnly : Nat
  collectsPositional : Bool
  collectsKeywords : Bool
  locals : List String
deriving DecidableEq, Inhabited

namespace Parameters

/-- Both counts are kept in sixteen bits. -/
def countLimit : Nat := 65536

def ofNames (names : List String) : Parameters where
  positional := names.length % countLimit
  keywordOnly := 0
  collectsPositional := false
  collectsKeywords := false
  locals := names

def withPositionalCollector (p : Parameters) (name : String) : Parameters :=
  { p with collectsPositional := true, locals := p.locals ++ [name] }

def withKeywordOnly (p : Parameters) (names : List String) : Parameters :=
  { p with
    keywordOnly := (p.keywordOnly + names.length) % countLimit
    locals := p.locals ++ names }

def withKeywordCollector (p : Parameters) (name : String) : Parameters :=
  { p with collectsKeywords := true, locals := p.locals ++ [name] }

def flags (p : Parameters) : Nat :=
  (if p.collectsPositional then 1 else 0) + if p.collectsKeywords then 2 else 0

def size (p : Parameters) : Nat := p.positional + p.keywordOnly

def keywordOnlyStart (p : Parameters) : Nat :=
  p.positional + if p.collectsPositional then 1 else 0

def indexOf? (p : Parameters) (name : String) : Option Nat :=
  match (p.locals.take p.positional).findIdx? (· == name) with
  | some i => some i
  | none =>
    (((p.locals.drop p.keywordOnlyStart).take p.keywordOnly).findIdx? (· == name)).map
      (p.positional + ·)

def nameAt (p : Parameters) (index : Nat) : String :=
  let place :=
    if index < p.positional then index
    else index + if p.collectsPositional then 1 else 0
  p.locals[place]?.getD "?"

/-- The parameter that the body reads under this name: the first local of the name decides. -/
def slotOf? (p : Parameters) (name : String) : Option Nat :=
  match p.locals.findIdx? (· == name) with
  | none => none
  | some place =>
    if place < p.positional then some place
    else if p.keywordOnlyStart ≤ place ∧ place < p.keywordOnlyStart + p.keywordOnly then
      some (p.positional + (place - p.keywordOnlyStart))
    else none

end Parameters
end Callables
