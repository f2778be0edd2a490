import Callables.Value

namespace Callables

structure ArgsView where
  values : List Value
  names : List Text
deriving DecidableEq, Inhabited

namespace ArgsView

def ofCall (args : List Value) (keywords : Keywords) : ArgsView where
  values := args ++ keywords.values
  names := keywords.map Prod.fst

def positionalCount (view : ArgsView) : Nat := view.values.length - view.names.length

def positional (view : ArgsView) : List Value := view.values.take view.positionalCount

def keywordValues (view : ArgsView) : List Value := view.values.drop view.positionalCount

def keywords (view : ArgsView) : Keywords := view.names.zip view.keywordValues

def keyword? (view : ArgsView) (name : String) : Option Value :=
  (view.names.findIdx? (·.content == name)).bind fun i => view.keywordValues[i]?

theorem positional_ofCall (args : List Value) (keywords : Keywords) :
    (ofCall args keywords).positional = args := by
  simp [ofCall, positional, positionalCount, Keywords.values]

theorem keywords_ofCall (args : List Value) (keywords : Keywords) :
    (ofCall args keywords).keywords = keywords := by
  have h : (ofCall args keywords).keywordValues = keywords.values := by
    simp [ofCall, keywordValues, positionalCount, Keywords.values]
  rw [ArgsView.keywords, h]
  exact (List.zip_of_prod rfl rfl).symm

end ArgsView
end Callables
