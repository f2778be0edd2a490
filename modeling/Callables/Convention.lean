import Callables.Flags

namespace Callables

inductive Convention
  | noArgs
  | single
  | varArgs
  | varArgsKeywords
  | fast
  | fastKeywords
deriving DecidableEq, Inhabited

namespace Convention

/-- The convention that flags select: exactly one convention flag is set, and `keywords` goes only
with a packed or a contiguous argument list. -/
def ofFlags? (flags : EntryFlags) : Option Convention :=
  let named := flags.has .keywords
  let choice := flags.meet .conventionMask
  if choice = .noArgs ∧ !named then some .noArgs
  else if choice = .single ∧ !named then some .single
  else if choice = .varArgs then some (if named then .varArgsKeywords else .varArgs)
  else if choice = .fast then some (if named then .fastKeywords else .fast)
  else none

def acceptsKeywords : Convention → Bool
  | .varArgsKeywords | .fastKeywords => true
  | _ => false

end Convention
end Callables
