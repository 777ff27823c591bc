import LeastSquares.Decimal.Rounded
import LeastSquares.Decimal.Shortest

/-! # Layouts of shortest decimals

Which digits name a double is settled by `Binary.shortest`; how they are laid out is settled by the
few decisions of a `Layout`.
-/

namespace LeastSquares.Decimal

/-- The decisions of a format for shortest decimals. -/
structure Layout where
  /-- Whether a number whose leading digit has this power of ten is written without a power. -/
  positional : Int → Bool
  /-- Whether a whole number written without a power ends in a point and a zero. -/
  wholeFraction : Bool
  /-- Whether a power that is not negative gets a plus sign. -/
  exponentPlus : Bool
  tie : Tie

namespace Layout

/-- Digits written without a power of ten, for a leading digit at `10 ^ e`. -/
def place (l : Layout) (negative : Bool) (ds : List Digit) (e : Int) : Numeral :=
  if e < 0 then ⟨negative, [Digit.zero], List.replicate ((-e).toNat - 1) Digit.zero ++ ds, none⟩
  else
    let whole := e.toNat + 1
    let fraction := ds.drop whole
    ⟨negative, ds.take whole ++ List.replicate (whole - ds.length) Digit.zero,
      if fraction.isEmpty && l.wholeFraction then [Digit.zero] else fraction, none⟩

def scale (l : Layout) (negative : Bool) (ds : List Digit) (e : Int) : Numeral :=
  let sign : ExponentSign := if e < 0 then .minus else if l.exponentPlus then .plus else .bare
  ⟨negative, ds.take 1, ds.drop 1, some ⟨sign, digits e.natAbs⟩⟩

def numeral (l : Layout) (x : Float) : Numeral :=
  let d := (Binary.ofFloat x).shortest l.tie
  let ds := digits d.coefficient
  let e := d.power + (ds.length : Int) - 1
  if l.positional e then l.place (signBit x) ds e else l.scale (signBit x) ds e

/-- Always with a power of ten: `1e-3`, `2.5e0`. -/
def scientific : Layout where
  positional _ := false
  wholeFraction := false
  exponentPlus := false
  tie := .up

/-- Never with a power of ten: `0.001`, `2.5`, `100000000000000000000`. -/
def plain : Layout where
  positional _ := true
  wholeFraction := false
  exponentPlus := false
  tie := .up

end Layout

/-- A double as text by a rule for finite ones; the others have names. -/
def textOr (finite : Float → Numeral) (x : Float) : String :=
  if x.isNaN then "NaN"
  else if x.isInf then (if signBit x then "-inf" else "inf")
  else (finite x).text

end LeastSquares.Decimal
