import FrameChain.Ids
import FrameChain.Json.Shape

set_option autoImplicit false

/-!
# Parts of documents

How the values that documents are made of are decoded. A document of the wrong shape is a mismatch.
-/
namespace FrameChain.Json

def asText : Json → Except Fault String
  | text s => .ok s
  | _ => .error .mismatched

def asBool : Json → Except Fault Bool
  | bool b => .ok b
  | _ => .error .mismatched

def asNat (bound : Nat) : Json → Except Fault Nat
  | number (.int i) => if 0 ≤ i && i < bound then .ok i.toNat else .error .mismatched
  | _ => .error .mismatched

def asWord32 (j : Json) : Except Fault UInt32 := return UInt32.ofNat (← j.asNat UInt32.size)

def asWord64 (j : Json) : Except Fault UInt64 := return UInt64.ofNat (← j.asNat UInt64.size)

/-- A whole number stands for the floating-point number nearest to it. -/
def asFloat : Json → Except Fault Float
  | number (.float x) => .ok x
  | number (.int i) => .ok (Float.ofInt i)
  | _ => .error .mismatched

def asOption {τ : Type} (decode : Json → Except Fault τ) : Json → Except Fault (Option τ)
  | null => .ok none
  | j => return some (← decode j)

def asList {τ : Type} (decode : Json → Except Fault τ) : Json → Except Fault (List τ)
  | list items => items.mapM decode
  | _ => .error .mismatched

def field {τ : Type} (key : String) (decode : Json → Except Fault τ) (j : Json) : Except Fault τ :=
  match j.get? key with
  | some value => decode value
  | none => .error .mismatched

/-- A field that stands for `preset` when it is absent. -/
def fieldD {τ : Type} (key : String) (preset : τ) (decode : Json → Except Fault τ) (j : Json) :
    Except Fault τ :=
  match j.get? key with
  | some value => decode value
  | none => .ok preset

/-- A field that may be absent or `null`. -/
def field? {τ : Type} (key : String) (decode : Json → Except Fault τ) (j : Json) :
    Except Fault (Option τ) :=
  j.fieldD key none (asOption decode)

end FrameChain.Json

namespace FrameChain

open Json (Fault)

def EntityId.toJson (id : EntityId) : Json := .nat id.val

def EntityId.ofJson (j : Json) : Except Fault EntityId := return ⟨← j.asNat UInt64.size⟩

def ComponentId.toJson (id : ComponentId) : Json := .nat id.val

def ComponentId.ofJson (j : Json) : Except Fault ComponentId := return ⟨← j.asNat UInt64.size⟩

end FrameChain
