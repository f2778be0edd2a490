namespace Callables.Decimal

structure Scientific where
  digits : Nat
  exponent : Int
deriving DecidableEq, Inhabited

structure Binary where
  mantissa : Nat
  exponent : Int
  /-- Whether the next smaller number is only half as far away as the next larger one. -/
  narrowBelow : Bool
deriving DecidableEq, Inhabited

namespace Binary

def ofBits (bits : UInt64) : Binary :=
  let fraction := (bits &&& 0xFFFFFFFFFFFFF).toNat
  let biased := ((bits >>> 52) &&& 0x7FF).toNat
  if biased = 0 then ⟨fraction, -1074, false⟩
  else ⟨fraction + 0x10000000000000, (biased : Int) - 1075, fraction = 0 ∧ 1 < biased⟩

end Binary

structure Interval where
  low : Nat
  value : Nat
  high : Nat
  scale : Nat
  closed : Bool
deriving DecidableEq, Inhabited

namespace Interval

def ofBinary (b : Binary) : Interval :=
  let up := b.exponent.toNat
  let down := (-b.exponent).toNat
  let value := 4 * b.mantissa * Nat.pow 2 up
  { low := value - (if b.narrowBelow then 1 else 2) * Nat.pow 2 up
    value := value
    high := value + 2 * Nat.pow 2 up
    scale := 4 * Nat.pow 2 down
    closed := b.mantissa % 2 = 0 }

def holds (i : Interval) (n d : Nat) : Bool :=
  if i.closed then i.low * d ≤ n * i.scale && n * i.scale ≤ i.high * d
  else i.low * d < n * i.scale && n * i.scale < i.high * d

def onGrid? (i : Interval) (exponent : Int) : Option Scientific :=
  let grid := Nat.pow 10 exponent.toNat
  let parts := Nat.pow 10 (-exponent).toNat
  let below := i.value * parts / (i.scale * grid)
  let offset := i.value * parts - below * (i.scale * grid)
  let choices :=
    if 2 * offset < i.scale * grid then [below, below + 1] else [below + 1, below]
  (choices.find? fun n => 0 < n && i.holds (n * grid) parts).map fun n => ⟨n, exponent⟩

end Interval

def bound (b : Binary) : Int :=
  ((b.mantissa.log2 : Int) + b.exponent + 1) * 30103 / 100000 + 2

def search (i : Interval) : Nat → Int → Scientific
  | 0, exponent => ⟨0, exponent⟩
  | steps + 1, exponent =>
    match i.onGrid? exponent with
    | some decimal => decimal
    | none => search i steps (exponent - 1)

def strip : Nat → Scientific → Scientific
  | 0, d => d
  | steps + 1, d =>
    if d.digits % 10 = 0 ∧ d.digits ≠ 0 then strip steps ⟨d.digits / 10, d.exponent + 1⟩ else d

def shortest (x : Float) : Scientific :=
  let b := Binary.ofBits x.toBits
  if b.mantissa = 0 then ⟨0, 0⟩
  else strip 20 (search (Interval.ofBinary b) 24 (bound b))

end Callables.Decimal
