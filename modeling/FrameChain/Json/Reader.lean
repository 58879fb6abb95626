import FrameChain.Json.Draft
import FrameChain.Json.Numeral

set_option autoImplicit false

/-!
# Reading text

The grammar of JSON, from a text to its draft. Reading stops at the first fault of the grammar; a number
without a value and half of a surrogate pair are no such faults. Whoever reads says how numerals are
rounded.
-/
namespace FrameChain.Json.Reader

/-- How numerals that are not whole numbers are rounded. -/
abbrev Rounding := Numeral → Option Float

/-- What is left to read, unless reading cannot go on. -/
abbrev Rest := Option (List Char)

def isBlank (c : Char) : Bool := c == ' ' || c == '\t' || c == '\n' || c == '\r'

def skipBlanks (cs : List Char) : List Char := cs.dropWhile isBlank

def malformed : Draft × Rest := (.broken .malformed .malformed, none)

/-- The rest of a word such as `null`. -/
def word (d : Draft) : List Char → List Char → Draft × Rest
  | [], cs => (d, some cs)
  | _ :: _, [] => (.broken .truncated .truncated, none)
  | w :: ws, c :: cs => if w = c then word d ws cs else malformed

/-! ### Numbers -/

def isDigit (c : Char) : Bool := '0' ≤ c && c ≤ '9'

def digits (cs : List Char) : List Nat × List Char :=
  ((cs.takeWhile isDigit).map fun c => c.toNat - '0'.toNat, cs.dropWhile isDigit)

/-- A number that breaks off is truncated, or malformed if it is only passed over. -/
def numberBreak (cs : List Char) : Draft × Rest :=
  (.broken (if cs.isEmpty then .truncated else .malformed) .malformed, none)

def floatDraft (round : Rounding) (n : Numeral) : Draft :=
  match round n with
  | some x => .number (.float x)
  | none => .valueless

/-- Whole numbers of at most 64 bits stay whole; others, and a negative zero, become floating-point
numbers. -/
def wholeDraft (round : Rounding) (n : Numeral) : Draft :=
  let m := Numeral.digitsValue n.whole
  if n.negative then
    if 0 < m && m ≤ 0x8000000000000000 then .number (.int (-(m : Int))) else floatDraft round n
  else if m < UInt64.size then .number (.int m)
  else floatDraft round n

def exponentPart (round : Rounding) (n : Numeral) (cs : List Char) : Draft × Rest :=
  let (minus, cs) :=
    match cs with
    | '-' :: cs => (true, cs)
    | '+' :: cs => (false, cs)
    | cs => (false, cs)
  let (ds, rest) := digits cs
  if ds.isEmpty then numberBreak rest
  else
    let written : Int := Numeral.digitsValue ds
    (floatDraft round { n with exponent := if minus then -written else written }, some rest)

def number (round : Rounding) (negative : Bool) (cs : List Char) : Draft × Rest :=
  let (whole, rest) := digits cs
  if whole.isEmpty then numberBreak rest
  else if whole.head? = some 0 && 1 < whole.length then malformed
  else
    match rest with
    | '.' :: cs =>
      let (fraction, rest) := digits cs
      let n : Numeral := { negative, whole, fraction }
      if fraction.isEmpty then numberBreak rest
      else
        match rest with
        | 'e' :: cs | 'E' :: cs => exponentPart round n cs
        | _ => (floatDraft round n, some rest)
    | 'e' :: cs | 'E' :: cs => exponentPart round { negative, whole } cs
    | _ => (wholeDraft round { negative, whole }, some rest)

/-! ### Strings -/

def hexValue? (c : Char) : Option Nat :=
  if isDigit c then some (c.toNat - '0'.toNat)
  else if 'a' ≤ c && c ≤ 'f' then some (c.toNat - 'a'.toNat + 10)
  else if 'A' ≤ c && c ≤ 'F' then some (c.toNat - 'A'.toNat + 10)
  else none

/-- Four digits. With fewer than four bytes left, whatever they are, the text breaks off. -/
def hex4 (cs : List Char) : Except Fault (Nat × List Char) :=
  match cs with
  | a :: b :: c :: d :: rest =>
    match hexValue? a, hexValue? b, hexValue? c, hexValue? d with
    | some a, some b, some c, some d => .ok (((a * 16 + b) * 16 + c) * 16 + d, rest)
    | _, _, _, _ => .error .malformed
  | _ => if (String.ofList cs).utf8ByteSize < 4 then .error .truncated else .error .malformed

/-- A character of a string: written as such, or half of a surrogate pair. -/
inductive Piece where
  | char (c : Char)
  | half (unit : Nat)

def simpleEscape? : Char → Option Char
  | '"' => some '"'
  | '\\' => some '\\'
  | '/' => some '/'
  | 'b' => some '\x08'
  | 'f' => some '\x0c'
  | 'n' => some '\n'
  | 'r' => some '\r'
  | 't' => some '\t'
  | _ => none

def piece (unit : Nat) : Piece :=
  if 0xd800 ≤ unit && unit < 0xe000 then .half unit else .char (Char.ofNat unit)

/-- The pieces up to the closing quote, at most `fuel` of them, and what follows or why there is no
closing quote. -/
def pieces : Nat → List Char → List Piece × Except Fault (List Char)
  | 0, _ => ([], .error .truncated)
  | _ + 1, [] => ([], .error .truncated)
  | _ + 1, '"' :: rest => ([], .ok rest)
  | _ + 1, ['\\'] => ([], .error .truncated)
  | fuel + 1, '\\' :: 'u' :: cs =>
    match hex4 cs with
    | .error fault => ([], .error fault)
    | .ok (unit, rest) =>
      let (ps, stop) := pieces fuel rest
      (piece unit :: ps, stop)
  | fuel + 1, '\\' :: c :: cs =>
    match simpleEscape? c with
    | none => ([], .error .malformed)
    | some c =>
      let (ps, stop) := pieces fuel cs
      (.char c :: ps, stop)
  | fuel + 1, c :: cs =>
    if c.toNat < 0x20 then ([], .error .malformed)
    else
      let (ps, stop) := pieces fuel cs
      (.char c :: ps, stop)

/-- How far pieces make characters. -/
inductive Joined where
  | whole (cs : List Char)
  /-- Half of a pair stands alone. -/
  | lone
  /-- The pieces end in the first half of a pair. -/
  | pending
deriving DecidableEq

def Joined.cons (c : Char) : Joined → Joined
  | .whole cs => .whole (c :: cs)
  | other => other

/-- Two halves in a row make one character. -/
def join : List Piece → Joined
  | [] => .whole []
  | .char c :: rest => (join rest).cons c
  | [.half high] => if high < 0xdc00 then .pending else .lone
  | .half _ :: .char _ :: _ => .lone
  | .half high :: .half low :: rest =>
    if high < 0xdc00 && 0xdc00 ≤ low then
      (join rest).cons (Char.ofNat (0x10000 + (high - 0xd800) * 0x400 + (low - 0xdc00)))
    else .lone

def string (cs : List Char) : Draft × Rest :=
  let (ps, stop) := pieces (cs.length + 1) cs
  match stop, join ps with
  | .ok rest, .whole s => (.text (String.ofList s), some rest)
  | .ok rest, _ => (.valueless, some rest)
  | .error fault, .lone => (.brokenText .malformed fault, none)
  | .error fault, _ => (.brokenText fault fault, none)

/-! ### Values -/

variable (round : Rounding)

mutual

/-- One value. Every call consumes a character or goes from a value to its brackets, so twice the length
of the text is enough fuel. -/
def value : Nat → List Char → Draft × Rest
  | 0, _ => (.absent, none)
  | fuel + 1, cs =>
    match skipBlanks cs with
    | [] => (.absent, none)
    | 'n' :: cs => word .null ['u', 'l', 'l'] cs
    | 't' :: cs => word (.bool true) ['r', 'u', 'e'] cs
    | 'f' :: cs => word (.bool false) ['a', 'l', 's', 'e'] cs
    | '-' :: cs => number round true cs
    | '"' :: cs => string cs
    | '[' :: cs =>
      let (ds, stop, rest) := items fuel true cs
      (.list ds stop, rest)
    | '\x7b' :: cs =>
      let (ds, stop, rest) := entries fuel true cs
      (.object ds stop, rest)
    | c :: cs => if isDigit c then number round false (c :: cs) else malformed

def items : Nat → Bool → List Char → List Draft × Option Fault × Rest
  | 0, _, _ => ([], some .truncated, none)
  | fuel + 1, first, cs =>
    match skipBlanks cs with
    | [] => ([], some .truncated, none)
    | ']' :: rest => ([], none, some rest)
    | c :: rest =>
      if first then itemThen fuel (c :: rest)
      else if c = ',' then
        match skipBlanks rest with
        | ']' :: _ => ([(malformed).1], some .malformed, none)
        | rest => itemThen fuel rest
      else ([], some .malformed, none)

def itemThen : Nat → List Char → List Draft × Option Fault × Rest
  | 0, _ => ([], some .truncated, none)
  | fuel + 1, cs =>
    match value fuel cs with
    | (d, none) => ([d], some .malformed, none)
    | (d, some rest) =>
      let (ds, stop, rest) := items fuel false rest
      (d :: ds, stop, rest)

def entries : Nat → Bool → List Char → List (Draft × Draft) × Option Fault × Rest
  | 0, _, _ => ([], some .truncated, none)
  | fuel + 1, first, cs =>
    match skipBlanks cs with
    | [] => ([], some .truncated, none)
    | '\x7d' :: rest => ([], none, some rest)
    | c :: rest =>
      if first then entryThen fuel (c :: rest)
      else if c = ',' then entryThen fuel (skipBlanks rest)
      else ([], some .malformed, none)

def entryThen : Nat → List Char → List (Draft × Draft) × Option Fault × Rest
  | 0, _ => ([], some .truncated, none)
  | _ + 1, [] => ([(.absent, .absent)], some .truncated, none)
  | fuel + 1, '"' :: cs =>
    match string cs with
    | (key, none) => ([(key, malformed.1)], some .malformed, none)
    | (key, some rest) =>
      match skipBlanks rest with
      | [] => ([(key, .absent)], some .truncated, none)
      | ':' :: rest =>
        match value fuel rest with
        | (d, none) => ([(key, d)], some .malformed, none)
        | (d, some rest) =>
          let (ds, stop, rest) := entries fuel false rest
          ((key, d) :: ds, stop, rest)
      | _ :: _ => ([(key, malformed.1)], some .malformed, none)
  | _ + 1, _ :: _ => ([(malformed.1, malformed.1)], some .malformed, none)

end

/-- The draft of a text, and whether anything but blanks follows the value. -/
def draft (s : String) : Draft × Bool :=
  let cs := s.toList
  match value round (4 * cs.length + 4) cs with
  | (d, some rest) => (d, !(skipBlanks rest).isEmpty)
  | (d, none) => (d, false)

end FrameChain.Json.Reader
