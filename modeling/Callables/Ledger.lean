import Callables.Object

namespace Callables

/-- A note about references. -/
inductive Move
  | take (values : List Value)
  /-- Something lets go of values, one after the other. The value that it passes on stays, although
  nothing has taken hold of that one yet. -/
  | letGo (values : List Value) (passed : Option Value)
  | create (o : Object)
  | change (old new : Object)

abbrev Ledger := Array Move

end Callables
