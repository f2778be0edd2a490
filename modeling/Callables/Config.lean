import Callables.Blank

namespace Callables

structure Config where
  recursionLimit : UInt32
  /-- Whether tables of entries are validated when they are registered. Otherwise a malformed entry
  is found at its first call. -/
  checkFlags : Bool
deriving DecidableEq, Inhabited

namespace Config

def standard : Config := ⟨1000, true⟩

def digits? (cs : List Char) : Option Nat :=
  if cs.isEmpty || !cs.all Char.isDigit then none
  else some (cs.foldl (fun n c => 10 * n + (c.toNat - '0'.toNat)) 0)

/-- A number of 32 bits in decimal, with an optional plus sign and blanks around it. -/
def word? (text : String) : Option UInt32 :=
  let cs := Blank.trim text.toList
  let cs := match cs with
    | '+' :: rest => rest
    | _ => cs
  match digits? cs with
  | some n => if h : n < UInt32.size then some (UInt32.ofNatLT n h) else none
  | none => none

/-- A switch: the words for on and off, in any case of the letters. -/
def switch? (text : String) : Option Bool :=
  let word := String.ofList ((Blank.trim text.toList).map Char.toLower)
  if ["1", "true", "yes", "on"].contains word then some true
  else if ["0", "false", "no", "off"].contains word then some false
  else none

/-- The configuration that the texts of the two settings give. A missing or unreadable text, and
a limit of zero, leave the standard value. -/
def ofSettings (limit checkFlags : Option String) : Config where
  recursionLimit := ((limit.bind word?).filter (0 < ·)).getD standard.recursionLimit
  checkFlags := (checkFlags.bind switch?).getD standard.checkFlags

end Config
end Callables
