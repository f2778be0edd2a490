namespace Callables

inductive Expr (ν α : Type)
  | constant (value : α)
  | parameter (name : String)
  | argument (index : Nat)
  | cell (index : Nat)
  | global (name : String)
  | parameters
  | collectedPositional
  | collectedKeywords
  | globals
  | function
  | codeName
  | depth
  | tuple (items : List (Expr ν α))
  | sequence (steps : List (Expr ν α))
  | call (callee : Expr ν α) (args : List (Expr ν α)) (keywords : List (ν × Expr ν α))
  | callMethod (receiver : Expr ν α) (name : String) (args : List (Expr ν α))
      (keywords : List (ν × Expr ν α))
  | getAttribute (target : Expr ν α) (name : String)
  | setAttribute (target : Expr ν α) (name : String) (value : Expr ν α)
  | raise (kind message : String)
  | attempt (body : Expr ν α)
  | add (left right : Expr ν α)
  | ifPositive (condition yes no : Expr ν α)

namespace Expr

mutual

def constants {ν α : Type} : Expr ν α → List α
  | .constant value => [value]
  | .tuple items => constantsAll items
  | .sequence steps => constantsAll steps
  | .call callee args keywords =>
    callee.constants ++ constantsAll args ++ constantsNamed keywords
  | .callMethod receiver _ args keywords =>
    receiver.constants ++ constantsAll args ++ constantsNamed keywords
  | .getAttribute target _ => target.constants
  | .setAttribute target _ value => target.constants ++ value.constants
  | .attempt body => body.constants
  | .add left right => left.constants ++ right.constants
  | .ifPositive condition yes no => condition.constants ++ yes.constants ++ no.constants
  | _ => []

def constantsAll {ν α : Type} : List (Expr ν α) → List α
  | [] => []
  | e :: rest => e.constants ++ constantsAll rest

def constantsNamed {ν α : Type} : List (ν × Expr ν α) → List α
  | [] => []
  | (_, e) :: rest => e.constants ++ constantsNamed rest

end

mutual

def mapM {ν μ α β : Type} {m : Type → Type} [Monad m] (f : ν → m μ) (g : α → m β) :
    Expr ν α → m (Expr μ β)
  | .constant value => return .constant (← g value)
  | .parameter name => return .parameter name
  | .argument index => return .argument index
  | .cell index => return .cell index
  | .global name => return .global name
  | .parameters => return .parameters
  | .collectedPositional => return .collectedPositional
  | .collectedKeywords => return .collectedKeywords
  | .globals => return .globals
  | .function => return .function
  | .codeName => return .codeName
  | .depth => return .depth
  | .tuple items => return .tuple (← mapAllM f g items)
  | .sequence steps => return .sequence (← mapAllM f g steps)
  | .call callee args keywords =>
    return .call (← callee.mapM f g) (← mapAllM f g args) (← mapNamedM f g keywords)
  | .callMethod receiver name args keywords =>
    return .callMethod (← receiver.mapM f g) name (← mapAllM f g args)
      (← mapNamedM f g keywords)
  | .getAttribute target name => return .getAttribute (← target.mapM f g) name
  | .setAttribute target name value =>
    return .setAttribute (← target.mapM f g) name (← value.mapM f g)
  | .raise kind message => return .raise kind message
  | .attempt body => return .attempt (← body.mapM f g)
  | .add left right => return .add (← left.mapM f g) (← right.mapM f g)
  | .ifPositive condition yes no =>
    return .ifPositive (← condition.mapM f g) (← yes.mapM f g) (← no.mapM f g)

def mapAllM {ν μ α β : Type} {m : Type → Type} [Monad m] (f : ν → m μ) (g : α → m β) :
    List (Expr ν α) → m (List (Expr μ β))
  | [] => return []
  | e :: rest => return (← e.mapM f g) :: (← mapAllM f g rest)

def mapNamedM {ν μ α β : Type} {m : Type → Type} [Monad m] (f : ν → m μ) (g : α → m β) :
    List (ν × Expr ν α) → m (List (μ × Expr μ β))
  | [] => return []
  | (name, e) :: rest => return (← f name, ← e.mapM f g) :: (← mapNamedM f g rest)

end

end Expr
end Callables
