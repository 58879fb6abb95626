import FrameChain.Decimal.Shortest

set_option autoImplicit false

/-!
# How decimals are written

The digits of a number are chosen by `Binary.shortest`; a layout says how they are set out.
-/
namespace FrameChain

structure Layout where
  /-- For which decimal exponents of the leading digit no exponent is written. -/
  plain : Int → Bool
  /-- Whole numbers end in `.0`. -/
  pointZero : Bool
  tie : Tie

namespace Layout

/-- Numbers in documents. -/
def document : Layout := ⟨fun e => -5 ≤ e && e < 16, true, .toEven⟩

/-- Numbers in messages: an exponent is never written. -/
def message : Layout := ⟨fun _ => true, false, .up⟩

/-- `digits` is not empty, and the first one stands for a multiple of `10 ^ e`. -/
def setOut (layout : Layout) (digits : List Char) (e : Int) : List Char :=
  let n := digits.length
  if layout.plain e then
    if e < 0 then '0' :: '.' :: (List.replicate (-e - 1).toNat '0' ++ digits)
    else if n ≤ e.toNat + 1 then
      digits ++ List.replicate (e.toNat + 1 - n) '0' ++ (if layout.pointZero then ['.', '0'] else [])
    else digits.take (e.toNat + 1) ++ '.' :: digits.drop (e.toNat + 1)
  else
    let mantissa :=
      match digits with
      | first :: second :: rest => first :: '.' :: second :: rest
      | _ => digits
    let sign := if e < 0 then '-' else '+'
    mantissa ++ 'e' :: sign :: Nat.toDigits 10 e.natAbs

def dropTrailingZeros (digits : List Char) : List Char :=
  (digits.reverse.dropWhile (· == '0')).reverse

def isNegative (x : Float) : Bool := x.toBits >>> 63 == 1

def finite (layout : Layout) (x : Float) : String :=
  let b := Binary.ofFloat x
  let body :=
    if b.significand = 0 then layout.setOut ['0'] 0
    else
      let d := b.shortest layout.tie
      let digits := Nat.toDigits 10 d.digits
      layout.setOut (dropTrailingZeros digits) (d.exponent + digits.length - 1)
  String.ofList (if isNegative x then '-' :: body else body)

/-- The text of a number that may be none, or not finite. -/
def text (layout : Layout) (x : Float) : String :=
  if x.isNaN then "NaN"
  else if x.isFinite then layout.finite x
  else if x < 0 then "-inf"
  else "inf"

end Layout

/-- A quotient rounded to the nearest whole number, a half to the even one. -/
def roundHalfEven (num den : Nat) : Nat :=
  let whole := num / den
  match compare (2 * (num % den)) den with
  | .lt => whole
  | .gt => whole + 1
  | .eq => whole + whole % 2

/-- The text with a fixed number of decimal places, rounded from the exact value. -/
def fixedText (places : Nat) (x : Float) : String :=
  if x.isNaN then "NaN"
  else if x.isFinite then
    let (num, den) := (Binary.ofFloat x).ratio (-places)
    let digits := Nat.toDigits 10 (roundHalfEven num den)
    let padded := List.replicate (places + 1 - digits.length) '0' ++ digits
    let whole := padded.length - places
    let body := padded.take whole ++ if places = 0 then [] else '.' :: padded.drop whole
    String.ofList (if Layout.isNegative x then '-' :: body else body)
  else if x < 0 then "-inf"
  else "inf"

end FrameChain
