import FrameChain.Decimal.Layout
import FrameChain.Json.Value

set_option autoImplicit false

/-!
# Printing documents

The compact form has no blanks. The indented form puts each item and each entry on a line of its own,
two spaces deeper than the brackets around it; what is empty stays on one line.
-/
namespace FrameChain.Json

def hexDigit (n : Nat) : Char := (Nat.toDigits 16 n).headD '0'

/-- Quotes, backslashes and control characters are escaped; all else is written as it is. -/
def escape (c : Char) : List Char :=
  match c with
  | '"' => ['\\', '"']
  | '\\' => ['\\', '\\']
  | '\x08' => ['\\', 'b']
  | '\t' => ['\\', 't']
  | '\n' => ['\\', 'n']
  | '\x0c' => ['\\', 'f']
  | '\r' => ['\\', 'r']
  | c =>
    if c.toNat < 0x20 then ['\\', 'u', '0', '0', hexDigit (c.toNat / 16), hexDigit (c.toNat % 16)]
    else [c]

def quote (s : String) : String := String.ofList ('"' :: s.toList.flatMap escape ++ ['"'])

/-- A number that is not finite has no text of its own. -/
def numberText : Number → String
  | .int i => toString i
  | .float x => if x.isFinite then Layout.document.finite x else "null"

/-- How brackets, items and keys are spaced. -/
structure Spacing where
  /-- Before each item and before the closing bracket, at a depth. -/
  line : Nat → String
  colon : String

def Spacing.compact : Spacing := ⟨fun _ => "", ":"⟩

def Spacing.indented : Spacing :=
  ⟨fun depth => String.ofList ('\n' :: List.replicate (2 * depth) ' '), ": "⟩

mutual

def print (spacing : Spacing) (depth : Nat) : Json → String
  | null => "null"
  | bool true => "true"
  | bool false => "false"
  | number n => numberText n
  | text s => quote s
  | list [] => "[]"
  | list items =>
    "[" ++ printItems spacing (depth + 1) true items ++ spacing.line depth ++ "]"
  | object [] => "\x7b\x7d"
  | object entries =>
    "\x7b" ++ printEntries spacing (depth + 1) true entries ++ spacing.line depth ++ "\x7d"

def printItems (spacing : Spacing) (depth : Nat) (first : Bool) : List Json → String
  | [] => ""
  | item :: rest =>
    (if first then "" else ",") ++ spacing.line depth ++ print spacing depth item
      ++ printItems spacing depth false rest

def printEntries (spacing : Spacing) (depth : Nat) (first : Bool) : List (String × Json) → String
  | [] => ""
  | (key, value) :: rest =>
    (if first then "" else ",") ++ spacing.line depth ++ quote key ++ spacing.colon
      ++ print spacing depth value ++ printEntries spacing depth false rest

end

def compact (j : Json) : String := print .compact 0 j

def indented (j : Json) : String := print .indented 0 j

end FrameChain.Json
