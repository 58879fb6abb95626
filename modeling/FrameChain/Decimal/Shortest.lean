set_option autoImplicit false

/-!
# The fewest digits that read back

A finite floating-point number stands for an interval of reals: those nearer to it than to its
neighbours, with the ends when its significand is even. Its text is the decimal of fewest digits in that
interval, and of two such decimals the nearer. All comparisons are exact, on natural numbers.
-/
namespace FrameChain

/-- `significand * 2 ^ exponent`. -/
structure Binary where
  significand : Nat
  exponent : Int
  /-- The neighbour below is half as far away as the one above. -/
  narrowBelow : Bool
deriving DecidableEq, Repr

/-- `digits * 10 ^ exponent`. -/
structure Decimal where
  digits : Nat
  exponent : Int
deriving DecidableEq, Repr

/-- What becomes of a value halfway between two decimals. -/
inductive Tie where
  | toEven
  | up
deriving DecidableEq, Repr

def Binary.ofFloat (x : Float) : Binary :=
  let bits := x.toBits
  let biased := ((bits >>> 52) &&& 0x7ff).toNat
  let fraction := (bits &&& 0xfffffffffffff).toNat
  if biased = 0 then ⟨fraction, -1074, false⟩
  else ⟨0x10000000000000 + fraction, (biased : Int) - 1075, fraction == 0 && 1 < biased⟩

namespace Binary

/-- Numerator and denominator of `b / 10 ^ place`. -/
def ratio (b : Binary) (place : Int) : Nat × Nat :=
  (b.significand * Nat.pow 2 b.exponent.toNat * Nat.pow 10 (-place).toNat,
    Nat.pow 2 (-b.exponent).toNat * Nat.pow 10 place.toNat)

/-- The decimal lies in the interval of reals that round to `b`. -/
def readsBack (b : Binary) (d : Decimal) : Bool :=
  let decimal := 4 * d.digits * Nat.pow 10 d.exponent.toNat * Nat.pow 2 (-b.exponent).toNat
  let unit := Nat.pow 2 b.exponent.toNat * Nat.pow 10 (-d.exponent).toNat
  let low := (4 * b.significand - if b.narrowBelow then 1 else 2) * unit
  let high := (4 * b.significand + 2) * unit
  if b.significand % 2 = 0 then low ≤ decimal && decimal ≤ high
  else low < decimal && decimal < high

/-- The decimal exponent above the leading digit: the least `k` with `b < 10 ^ k`. -/
def magnitude (b : Binary) : Int :=
  let (num, den) := b.ratio (-400)
  (Nat.toDigits 10 (num / den)).length - 400

/-- The decimal with last digit at `place` that reads back, if one of the two next to `b` does. -/
def atPlace? (tie : Tie) (b : Binary) (place : Int) : Option Decimal :=
  let (num, den) := b.ratio place
  let below : Decimal := ⟨num / den, place⟩
  let above : Decimal := ⟨num / den + 1, place⟩
  match b.readsBack below, b.readsBack above with
  | true, false => some below
  | false, true => some above
  | false, false => none
  | true, true =>
    match compare (2 * (num % den)) den with
    | .lt => some below
    | .gt => some above
    | .eq =>
      match tie with
      | .up => some above
      | .toEven => if below.digits % 2 = 0 then some below else some above

/-- Every finite number reads back from seventeen digits. -/
def shortest (tie : Tie) (b : Binary) : Decimal :=
  let places := (List.range 17).map fun (n : Nat) => b.magnitude - 1 - n
  match places.findSome? (b.atPlace? tie) with
  | some d => d
  | none => ⟨0, 0⟩

end Binary
end FrameChain
