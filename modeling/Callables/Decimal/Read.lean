import Callables.Decimal.Shortest

namespace Callables.Decimal

def number (digits : List Char) : Nat :=
  digits.foldl (fun n c => 10 * n + (c.toNat - '0'.toNat)) 0

def signed? (cs : List Char) : Bool × List Char :=
  match cs with
  | '-' :: rest => (true, rest)
  | '+' :: rest => (false, rest)
  | _ => (false, cs)

def power? (cs : List Char) : Option Int :=
  match cs with
  | [] => some 0
  | c :: rest =>
    if c = 'e' ∨ c = 'E' then
      let (negative, digits) := signed? rest
      if digits.isEmpty || !digits.all Char.isDigit then none
      else some (if negative then -(number digits : Int) else number digits)
    else none

def scientific? (cs : List Char) : Option Scientific := do
  let whole := cs.takeWhile Char.isDigit
  let rest := cs.dropWhile Char.isDigit
  let (fraction, rest) :=
    match rest with
    | '.' :: rest => (rest.takeWhile Char.isDigit, rest.dropWhile Char.isDigit)
    | _ => ([], rest)
  guard (!(whole ++ fraction).isEmpty)
  let power ← power? rest
  return ⟨number (whole ++ fraction), power - fraction.length⟩

def nearest (d : Scientific) : Float :=
  let lead : Int := d.exponent + (Nat.toDigits 10 d.digits).length
  if d.digits = 0 ∨ lead < -400 then 0
  else if 400 < lead then 1 / 0
  else Float.ofScientific d.digits (d.exponent < 0) d.exponent.natAbs

def read? (text : String) : Option Float :=
  let (negative, cs) := signed? text.toList
  let word := String.ofList (cs.map Char.toLower)
  let magnitude :=
    if word = "inf" ∨ word = "infinity" then some (1 / 0)
    else if word = "nan" then some (0 / 0)
    else (scientific? cs).map nearest
  magnitude.map fun x => if negative then -x else x

end Callables.Decimal
