import Callables.Expr
import Callables.Parameters
import Callables.Value

namespace Callables

structure Code where
  name : Text
  qualname : Text
  doc : Option Text
  parameters : Parameters
  /-- The captured variables; a closure has one cell for each. -/
  freeVariables : List String
  body : Expr Text Value

namespace Code

def fileName : String := "<native>"

end Code
end Callables
