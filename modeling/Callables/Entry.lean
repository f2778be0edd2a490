import Callables.ArgsView
import Callables.Convention
import Callables.Dict
import Callables.Error

namespace Callables

/-- The native entry points, each with the convention it is written for. The leading argument is
the one that dispatch has chosen. -/
inductive Native : Convention → Type
  | lead : Native .noArgs
  | fail : Native .noArgs
  | depth : Native .noArgs
  | pair : Native .single
  | callArgument : Native .single
  | pack : Native .varArgs
  | packKeywords : Native .varArgsKeywords
  | record : Native .fast
  | count : Native .fast
  | refuse : Native .fast
  | apply : Native .fast
  | receiver : Native .fast
  | countdown : Native .fast
  | recordKeywords : Native .fastKeywords
  | applyKeywords : Native .fastKeywords
  | attempt : Native .fastKeywords
  | boundMethod : Native .fastKeywords
  | hostFunction : Native .fastKeywords
deriving DecidableEq

inductive Delivery : Convention → Type
  | noArgs (lead : Value) : Delivery .noArgs
  | single (lead arg : Value) : Delivery .single
  | varArgs (lead : Value) (args : List Value) : Delivery .varArgs
  /-- The dict is absent when the call has no keywords. -/
  | varArgsKeywords (lead : Value) (args : List Value) (keywords : Option (Dict Value)) :
      Delivery .varArgsKeywords
  | fast (lead : Value) (args : List Value) : Delivery .fast
  | fastKeywords (lead : Value) (view : ArgsView) : Delivery .fastKeywords

namespace Delivery

/-- Hands arguments over by convention `c`. Keywords that it does not take are found first. -/
def make (name : String) (lead : Value) (args : List Value) (keywords : Keywords)
    (c : Convention) : Except CallError (Delivery c) :=
  if !keywords.isEmpty && !c.acceptsKeywords then .error (.noKeywordArguments name)
  else
    match c with
    | .noArgs =>
      match args with
      | [] => .ok (.noArgs lead)
      | _ => .error (.takesNoArguments name args.length)
    | .single =>
      match args with
      | [arg] => .ok (.single lead arg)
      | _ => .error (.takesOneArgument name args.length)
    | .varArgs => .ok (.varArgs lead args)
    | .varArgsKeywords =>
      .ok (.varArgsKeywords lead args
        (if keywords.isEmpty then none else some (Dict.ofList keywords.byName)))
    | .fast => .ok (.fast lead args)
    | .fastKeywords => .ok (.fastKeywords lead (.ofCall args keywords))

end Delivery

/-- An entry of a dispatch table. It never changes; `ident` tells equal entries apart. -/
structure Entry where
  ident : Nat
  name : String
  convention : Convention
  native : Native convention
  flags : EntryFlags
  doc : Option String
  /-- Whether the entry belongs to the callables made from it and not to a table. -/
  shared : Bool
deriving DecidableEq

namespace Entry

def boundMethod : Entry where
  ident := 0
  name := "method"
  convention := .fastKeywords
  native := .boundMethod
  flags := (EntryFlags.fast.join .keywords).join .passFunction
  doc := none
  shared := false

def hostFunction : Entry where
  ident := 1
  name := "function"
  convention := .fastKeywords
  native := .hostFunction
  flags := ((EntryFlags.fast.join .keywords).join .passFunction).join .host
  doc := none
  shared := false

def firstIdent : Nat := 2

/-- The convention of an entry whose flags select the one it is written for. -/
def validate (entry : Entry) : Except CallError Convention :=
  if Convention.ofFlags? entry.flags = some entry.convention then .ok entry.convention
  else .error (.badCallFlags entry.name entry.flags.bits)

def accept (entry : Entry) (lead : Value) (args : List Value) (keywords : Keywords) :
    Except CallError (Delivery entry.convention) := do
  discard entry.validate
  Delivery.make entry.name lead args keywords entry.convention

end Entry
end Callables
