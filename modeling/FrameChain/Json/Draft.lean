import FrameChain.Json.Fault
import FrameChain.Json.Value

set_option autoImplicit false

/-!
# Drafts

A text goes through a grammar once, from the left, and what is asked of it may fail before the grammar
does. A draft is the text as far as the grammar carries: a tree whose leaves may be faults. Whoever
reads a draft in its order meets shape faults and grammar faults in the order of the text.

A value that nobody asks for is only passed over. That is more lenient: a number out of range or half of
a surrogate pair goes unnoticed, and so does the difference between a number that breaks off and one
that is malformed.
-/
namespace FrameChain

inductive Draft where
  | null
  | bool (b : Bool)
  | number (n : Number)
  | text (s : String)
  /-- Well formed, but no value: a number out of range, or half of a surrogate pair. -/
  | valueless
  /-- The text ends where a value is due. -/
  | absent
  /-- A string that breaks off or is malformed. -/
  | brokenText (asked passed : Json.Fault)
  /-- Anything else that breaks off or is malformed. -/
  | broken (asked passed : Json.Fault)
  /-- The items up to a fault, if there is one before the closing bracket. -/
  | list (items : List Draft) (stop : Option Json.Fault)
  /-- Each entry is a key and a value; a key that is no string is kept as what it is. -/
  | object (entries : List (Draft × Draft)) (stop : Option Json.Fault)

namespace Draft

open Json (Fault)

/-! ## Passing over and asking -/

def passedKey : Draft → Option Fault
  | text _ | valueless => none
  | absent => some .truncated
  | brokenText _ fault => some fault
  | _ => some .malformed

mutual

/-- The fault met while passing over a value. -/
def passed : Draft → Option Fault
  | null | bool _ | number _ | text _ | valueless => none
  | absent => some .truncated
  | brokenText _ fault | broken _ fault => some fault
  | list ds stop => (passedItems ds).or stop
  | object ds stop => (passedEntries ds).or stop

def passedItems : List Draft → Option Fault
  | [] => none
  | d :: ds => (passed d).or (passedItems ds)

def passedEntries : List (Draft × Draft) → Option Fault
  | [] => none
  | (key, d) :: ds => ((passedKey key).or (passed d)).or (passedEntries ds)

end

/-- The fault of a value of another kind than asked for: its own, if its text has one. -/
def unlike : Draft → Fault
  | null | bool _ | number _ | text _ | list .. | object .. => .mismatched
  | valueless => .malformed
  | absent => .truncated
  | brokenText fault _ | broken fault _ => fault

/-- A key is a string. -/
def key : Draft → Except Fault String
  | text s => .ok s
  | absent => .error .truncated
  | brokenText fault _ => .error fault
  | _ => .error .malformed

mutual

/-- The document itself. Nesting `depth` deep or deeper is refused. -/
def document : Nat → Draft → Except Fault Json
  | _, null => .ok .null
  | _, bool b => .ok (.bool b)
  | _, number n => .ok (.number n)
  | _, text s => .ok (.text s)
  | depth, list ds stop =>
    if depth ≤ 1 then .error .malformed
    else do
      let items ← documentItems (depth - 1) ds
      match stop with
      | none => return .list items
      | some fault => throw fault
  | depth, object ds stop =>
    if depth ≤ 1 then .error .malformed
    else do
      let entries ← documentEntries (depth - 1) ds
      match stop with
      | none => return .object entries
      | some fault => throw fault
  | _, d => .error d.unlike

def documentItems : Nat → List Draft → Except Fault (List Json)
  | _, [] => .ok []
  | depth, d :: ds => do return (← document depth d) :: (← documentItems depth ds)

def documentEntries : Nat → List (Draft × Draft) → Except Fault (List (String × Json))
  | _, [] => .ok []
  | depth, (k, d) :: ds => do
    let k ← k.key
    return (k, ← document depth d) :: (← documentEntries depth ds)

end

/-! ## From documents -/

mutual

/-- The draft of a document that stands for itself. -/
def ofJson : Json → Draft
  | .null => null
  | .bool b => bool b
  | .number n => number n
  | .text s => text s
  | .list items => list (ofItems items) none
  | .object entries => object (ofEntries entries) none

def ofItems : List Json → List Draft
  | [] => []
  | j :: js => ofJson j :: ofItems js

def ofEntries : List (String × Json) → List (Draft × Draft)
  | [] => []
  | (k, j) :: js => (text k, ofJson j) :: ofEntries js

end

end Draft
end FrameChain
