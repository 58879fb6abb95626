import FrameChain.Json.Reader

set_option autoImplicit false

/-!
# Shapes

A shape says which documents a format admits. Reading goes through a draft in the order of its text and
reports the first fault, be it of the grammar or of the shape; what it returns has the fields of every
record under their names and in their order.
-/
namespace FrameChain

/-- What becomes of a field that a record lacks. -/
inductive Presence where
  | required
  /-- The field is `null`. -/
  | optional
  /-- The field stays away, and stands for a value of the format. -/
  | preset
deriving DecidableEq, Repr

inductive Shape where
  | any
  | text
  | bool
  /-- A number written as a whole number, in a range. -/
  | whole (low high : Int)
  | real
  | variant (names : List String)
  | option (s : Shape)
  | list (s : Shape)
  /-- An object with these fields, or the list of their values. Other fields are passed over. -/
  | record (fields : List (String × Presence × Shape))
  /-- A record whose field `tag`, wherever it stands, says which fields there are. -/
  | tagged (tag : String) (cases : List (String × List (String × Presence × Shape)))

abbrev Fields := List (String × Presence × Shape)

namespace Shape

open Json (Fault)

def word32 : Shape := whole 0 (UInt32.size - 1)

def word64 : Shape := whole 0 (UInt64.size - 1)

/-- Documents this deep or deeper are refused. -/
def maxDepth : Nat := 128

def unwrap : Shape → Shape
  | option s => unwrap s
  | s => s

/-- A variant is a string. It may also stand as the only key of an object, with `null` as its value. -/
def readVariant (names : List String) (depth : Nat) : Draft → Except Fault Json
  | .text s => if s ∈ names then .ok (.text s) else .error .mismatched
  | .brokenText fault _ => .error fault
  | .absent => .error .truncated
  | .object entries stop =>
    if depth ≤ 1 then .error .malformed
    else
      match entries with
      | [] => .error (stop.getD .malformed)
      | (key, value) :: rest => do
        let s ← key.key
        if s ∉ names then throw .mismatched
        match value, rest, stop with
        | .null, [], none => return .text s
        | .null, [], some fault => throw fault
        | .null, _ :: _, _ => throw .malformed
        | value, _, _ => throw value.unlike
  | _ => .error .malformed

/-- The fields of a record in their order, out of those that were found. -/
def arrange (fields : Fields) (found : List (String × Json)) :
    Except Fault (List (String × Json)) :=
  match fields with
  | [] => .ok []
  | (name, presence, _) :: rest =>
    match found.lookup name, presence with
    | some value, _ => do return (name, value) :: (← arrange rest found)
    | none, .required => .error .mismatched
    | none, .optional => do return (name, .null) :: (← arrange rest found)
    | none, .preset => arrange rest found

def closed (stop : Option Fault) : Except Fault Unit :=
  match stop with
  | none => .ok ()
  | some fault => .error fault

/-- A document in place of a draft has no faults of the grammar. -/
def readScalar (shape : Shape) (j : Json) : Except Fault Json :=
  match shape, j with
  | any, j => .ok j
  | text, .text s => .ok (.text s)
  | bool, .bool b => .ok (.bool b)
  | whole low high, .number (.int i) =>
    if low ≤ i && i ≤ high then .ok (.number (.int i)) else .error .mismatched
  | real, .number n => .ok (.number n)
  | option _, .null => .ok .null
  | option s, j => readScalar s j
  | _, _ => .error .mismatched

/-- The fields of a case among buffered entries. -/
def readBuffered (fields : Fields) (found : List (String × Json)) :
    List (String × Json) → Except Fault (List (String × Json))
  | [] => arrange fields found
  | (key, value) :: rest =>
    match fields.lookup key with
    | none => readBuffered fields found rest
    | some (_, shape) => do
      if (found.lookup key).isSome then throw .mismatched
      let value ← readScalar shape value
      readBuffered fields (found ++ [(key, value)]) rest

/-- The fields of a case among buffered items: all of them and no more. -/
def readAligned : Fields → List Json → Except Fault (List (String × Json))
  | [], [] => .ok []
  | (name, _, shape) :: fields, value :: rest => do
    let value ← readScalar shape value
    return (name, value) :: (← readAligned fields rest)
  | _, _ => .error .mismatched

/-- The entries before the fields of a case are known: the tag as soon as it is met, the others as
documents, which are looked into only afterwards. -/
def readTagged (tag : String) (cases : List String) (depth : Nat) :
    Option String → List (Draft × Draft) → Except Fault (Option String × List (String × Json))
  | found, [] => .ok (found, [])
  | found, (key, d) :: rest => do
    let key ← key.key
    if key = tag then
      if found.isSome then throw .mismatched
      match d with
      | .text s =>
        if s ∈ cases then readTagged tag cases depth (some s) rest else throw .mismatched
      | d => throw d.unlike
    else
      let value ← d.document depth
      let (found, others) ← readTagged tag cases depth found rest
      return (found, (key, value) :: others)

def readCases (tag : String) (cases : List (String × Fields)) (depth : Nat) :
    Draft → Except Fault Json
  | .object entries stop => do
    if depth ≤ 1 then throw .malformed
    let (name, others) ← readTagged tag (cases.map (·.1)) (depth - 1) none entries
    closed stop
    match name with
    | none => throw .mismatched
    | some name =>
      let fields ← readBuffered ((cases.lookup name).getD []) [] others
      return .object ((tag, .text name) :: fields)
  | .list items stop => do
    if depth ≤ 1 then throw .malformed
    match items with
    | [] => throw (stop.getD .mismatched)
    | .text name :: rest =>
      if name ∉ cases.map (·.1) then throw .mismatched
      let values ← Draft.documentItems (depth - 1) rest
      closed stop
      let fields ← readAligned ((cases.lookup name).getD []) values
      return .object ((tag, .text name) :: fields)
    | d :: _ => throw d.unlike
  | d => .error d.unlike

mutual

def read (shape : Shape) (depth : Nat) : Draft → Except Fault Json
  | .null =>
    match shape with
    | any => .ok .null
    | option _ => .ok .null
    | variant _ => .error .malformed
    | _ => .error .mismatched
  | .list items stop =>
    match unwrap shape with
    | any => Draft.document depth (.list items stop)
    | list s =>
      if depth ≤ 1 then .error .malformed
      else do
        let values ← readItems s (depth - 1) items
        closed stop
        return .list values
    | record fields =>
      if depth ≤ 1 then .error .malformed
      else do return .object (← readInOrder fields (depth - 1) stop items)
    | tagged tag cases => readCases tag cases depth (.list items stop)
    | variant _ => .error .malformed
    | _ => .error .mismatched
  | .object entries stop =>
    match unwrap shape with
    | any => Draft.document depth (.object entries stop)
    | record fields =>
      if depth ≤ 1 then .error .malformed
      else do return .object (← readByName fields (depth - 1) stop [] entries)
    | tagged tag cases => readCases tag cases depth (.object entries stop)
    | variant names => readVariant names depth (.object entries stop)
    | _ => .error .mismatched
  | d =>
    match unwrap shape, d with
    | any, d => Draft.document depth d
    | text, .text s => .ok (.text s)
    | bool, .bool b => .ok (.bool b)
    | whole low high, .number (.int i) =>
      if low ≤ i && i ≤ high then .ok (.number (.int i)) else .error .mismatched
    | real, .number n => .ok (.number n)
    | variant names, d => readVariant names depth d
    | _, d => .error d.unlike

def readItems (s : Shape) (depth : Nat) : List Draft → Except Fault (List Json)
  | [] => .ok []
  | d :: ds => do return (← read s depth d) :: (← readItems s depth ds)

/-- A record as a list: the fields in order. Only preset ones may be missing at the end, and nothing
follows the last one. -/
def readInOrder (fields : Fields) (depth : Nat) (stop : Option Fault) :
    List Draft → Except Fault (List (String × Json))
  | [] =>
    match stop with
    | some fault => .error fault
    | none =>
      if fields.all fun field => field.2.1 = .preset then .ok [] else .error .mismatched
  | d :: ds =>
    match fields with
    | [] => .error .malformed
    | (name, _, s) :: fields => do
      let value ← read s depth d
      return (name, value) :: (← readInOrder fields depth stop ds)

/-- A record as an object: each field at most once. -/
def readByName (fields : Fields) (depth : Nat) (stop : Option Fault)
    (found : List (String × Json)) : List (Draft × Draft) → Except Fault (List (String × Json))
  | [] =>
    match stop with
    | some fault => .error fault
    | none => arrange fields found
  | (key, d) :: rest =>
    match key.key with
    | .error fault => .error fault
    | .ok key =>
      match fields.lookup key with
      | none =>
        match d.passed with
        | some fault => .error fault
        | none => readByName fields depth stop found rest
      | some (_, s) =>
        if (found.lookup key).isSome then .error .mismatched
        else
          match read s depth d with
          | .error fault => .error fault
          | .ok value => readByName fields depth stop (found ++ [(key, value)]) rest

end

/-- Reads a whole text. Its numerals are scaled. -/
def readText {τ : Type} (shape : Shape) (decode : Json → Except Fault τ) (s : String) :
    Except Fault τ := do
  let (draft, trailing) := Json.Reader.draft Json.Numeral.scaled? s
  let value ← decode (← shape.read maxDepth draft)
  if trailing then throw .malformed
  return value

end Shape
end FrameChain
