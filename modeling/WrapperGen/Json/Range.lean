import WrapperGen.Json.Value

namespace WrapperGen.Json

def digitValue (c : Char) : Nat := c.toNat - '0'.toNat

/-- The integer nearest to `n` among those with at most 53 significant bits, ties to even. -/
def roundTo53Bits (n : Nat) : Nat :=
  if n < Nat.pow 2 53 then n
  else
    let shift := n.log2 - 52
    let kept := n >>> shift
    let lost := n % Nat.pow 2 shift
    let half := Nat.pow 2 (shift - 1)
    if half < lost || (lost == half && kept % 2 == 1) then (kept + 1) <<< shift
    else kept <<< shift

/-- Digits are taken into the significand as long as it stays below 2^64; a digit before the
point that no longer fits counts in the exponent, one after the point is dropped. -/
def Number.wholePart (digits : List Char) : Nat × Nat :=
  digits.foldl
    (fun (significand, dropped) c =>
      let next := significand * 10 + digitValue c
      if dropped == 0 && next < Nat.pow 2 64 then (next, 0) else (significand, dropped + 1))
    (0, 0)

def Number.withFraction (significand : Nat) : List Char → Nat × Nat
  | [] => (significand, 0)
  | c :: rest =>
    let next := significand * 10 + digitValue c
    if next < Nat.pow 2 64 then
      let (significand, places) := withFraction next rest
      (significand, places + 1)
    else (significand, 0)

/-- The number, taken as a double, is finite. -/
def Number.isFinite (n : Number) : Bool :=
  let (whole, dropped) := wholePart (Nat.toDigits 10 n.whole)
  let (significand, places) := withFraction whole n.fraction
  let exponent : Int := dropped - places + n.exponent.getD 0
  significand == 0 || exponent < 0 ||
    (exponent ≤ 308 &&
      roundTo53Bits significand * roundTo53Bits (Nat.pow 10 exponent.toNat) <
        Nat.pow 2 1024 - Nat.pow 2 970)

end WrapperGen.Json
