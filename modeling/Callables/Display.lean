import Callables.Decimal.Written
import Callables.Names

namespace Callables.Runtime

def tupleText : List String → String
  | [item] => s!"({item},)"
  | items => "(" ++ ", ".intercalate items ++ ")"

def dictText (entries : List (String × String)) : String :=
  "\x7b" ++ ", ".intercalate (entries.map fun e => s!"'{e.1}': {e.2}") ++ "\x7d"

def nativeText (rt : Runtime) (f : Function) : String :=
  match rt.displayReceiver? f, f.owner, f.receiver with
  | some receiver, _, _ =>
    s!"<built-in method {rt.name f} of {rt.typeName receiver} object>"
  | none, some owner, none =>
    s!"<method '{rt.name f}' of '{(rt.types.info owner).name}' objects>"
  | _, _, _ => s!"<built-in function {rt.name f}>"

/-- The text of a value in which no chain of values held by values is longer than `depth`. -/
def display (rt : Runtime) : Nat → Value → Option String
  | 0, _ => none
  | depth + 1, v =>
    match v with
    | .none => some "None"
    | .bool b => some (if b then "True" else "False")
    | .int i => some (toString i.toInt)
    | .float x => some (Decimal.written x)
    | .text t => some s!"'{t.content}'"
    | .type id => some (rt.types.info id).text
    | .object r =>
      match rt.heap.get? r with
      | none => some s!"<{rt.typeName v} object>"
      | some (.tuple items) => (items.mapM (rt.display depth)).map tupleText
      | some (.dict entries) =>
        (entries.entries.mapM fun e => (rt.display depth e.2).map fun text => (e.1, text)).map
          dictText
      | some (.module name _) => some s!"<module '{name.content}'>"
      | some (.code c) => some s!"<code object {c.name.content}, file \"{Code.fileName}\">"
      | some (.ofClass type _) => some s!"<{(rt.types.info type).name} object>"
      | some (.closure c) => some s!"<native closure {c.name}>"
      | some (.function f) =>
        match f.kind, f.receiver with
        | .defined metadata, _ => some s!"<function {metadata.qualname.content}>"
        | .method _, some receiver =>
          (rt.display depth receiver).map fun text =>
            s!"<bound method {rt.qualname f} of {text}>"
        | .method _, none => some s!"<method {rt.name f}>"
        | _, _ => some (rt.nativeText f)

/-- The text that shows a value, unless the value holds itself: a chain without repetition visits
every place of the heap at most once before it ends. -/
def repr? (rt : Runtime) (v : Value) : Option String := rt.display (rt.heap.size + 1) v

end Callables.Runtime
