import Callables.Decimal.Shortest

namespace Callables.Decimal

structure Format where
  least : Int
  greatest : Int
  infinite : String
  notNumber : String

def standard : Format := ⟨-4, 15, "inf", "NaN"⟩

def plain (digits : List Char) (point : Int) : String :=
  if point ≤ 0 then
    "0." ++ String.ofList (List.replicate (-point).toNat '0' ++ digits)
  else
    let whole := digits.take point.toNat
    let rest := digits.drop point.toNat
    String.ofList (whole ++ List.replicate (point.toNat - digits.length) '0') ++ "." ++
      (if rest.isEmpty then "0" else String.ofList rest)

def powered (digits : List Char) (exponent : Int) : String :=
  String.ofList (digits.take 1) ++
    (if digits.length ≤ 1 then "" else "." ++ String.ofList (digits.drop 1)) ++
    "e" ++ toString exponent

def Format.write (format : Format) (d : Scientific) : String :=
  let digits := Nat.toDigits 10 d.digits
  let lead : Int := d.exponent + digits.length - 1
  if d.digits = 0 then plain ['0'] 1
  else if format.least ≤ lead ∧ lead ≤ format.greatest then plain digits (lead + 1)
  else powered digits lead

def written (x : Float) : String :=
  if x.isNaN then standard.notNumber
  else
    let sign := if x.toBits >>> 63 = 1 then "-" else ""
    sign ++ if x.isInf then standard.infinite else standard.write (shortest x)

end Callables.Decimal
