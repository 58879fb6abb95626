set_option autoImplicit false

/-!
# Numerals

A numeral is a decimal number as it is written, and there are two ways from it to a floating-point
number. The nearest one is what is written, rounded once. The scaled one keeps the leading digits that
fit a word and brings them to their place by a power of ten; the digits, the power and the result are
rounded one after the other, so its last place may be off. Both give `none` beyond all finite numbers.
-/
namespace FrameChain.Json

structure Numeral where
  negative : Bool := false
  whole : List Nat
  fraction : List Nat := []
  exponent : Int := 0
deriving DecidableEq, Repr

namespace Numeral

def digitsValue (ds : List Nat) : Nat := ds.foldl (fun n d => 10 * n + d) 0

def signed? (n : Numeral) (magnitude : Float) : Option Float :=
  if magnitude.isFinite then some (if n.negative then -magnitude else magnitude) else none

/-- Ten to `k`, and infinity from the first power on that is not finite. -/
def powerOfTen (k : Nat) : Float := Float.ofScientific 1 false (min k 309)

/-! ## The nearest number -/

def nearest? (n : Numeral) : Option Float :=
  let digits := n.whole ++ n.fraction
  let m := digitsValue digits
  let exponent := n.exponent - n.fraction.length
  let size := ((digits.dropWhile (· == 0)).length : Int) + exponent
  n.signed? <|
    if m = 0 || size < -400 then 0.0
    else if 400 < size then powerOfTen 309
    else Float.ofScientific m (decide (exponent < 0)) exponent.natAbs

/-! ## The scaled number -/

/-- Takes up digits behind those of `m` as long as the number fits a word. Also counts the digits left
out. -/
def takeUp (m : Nat) : List Nat → Nat × Nat
  | [] => (m, 0)
  | d :: ds => if 10 * m + d < UInt64.size then takeUp (10 * m + d) ds else (m, ds.length + 1)

/-- The leading digits that fit a word, and the power of ten that they count. -/
def leading (n : Numeral) : Nat × Int :=
  let (m, above) := takeUp 0 n.whole
  let (m, below) := takeUp m n.fraction
  (m, n.exponent + above - (n.fraction.length - below : Nat))

/-- Divides by ten to `places`, in two steps where that power is not finite. After two whole steps no
word is left. -/
def shrink (x : Float) (places : Nat) : Float :=
  x / powerOfTen (min places 308) / powerOfTen (min (places - 308) 308)

def scaled? (n : Numeral) : Option Float :=
  let (m, exponent) := n.leading
  n.signed? <|
    if m = 0 then 0.0
    else if exponent < 0 then shrink (Float.ofNat m) exponent.natAbs
    else Float.ofNat m * powerOfTen exponent.natAbs

end Numeral
end FrameChain.Json
