set_option autoImplicit false

/-!
# Documents

A JSON document as a tree. Whole numbers and floating-point numbers are told apart by how they were
written, and an object keeps its entries in order.
-/
namespace FrameChain

inductive Number where
  | int (i : Int)
  | float (x : Float)
deriving Inhabited

inductive Json where
  | null
  | bool (b : Bool)
  | number (n : Number)
  | text (s : String)
  | list (items : List Json)
  | object (entries : List (String × Json))
deriving Inhabited

namespace Json

def nat (n : Nat) : Json := .number (.int n)

def int (i : Int) : Json := .number (.int i)

/-- A floating-point number as computed, whatever its value. -/
def float (x : Float) : Json := .number (.float x)

/-- A floating-point number in a document: one that is not finite has no text and becomes `null`. -/
def finite (x : Float) : Json := if x.isFinite then float x else null

/-- An absent value is `null`. -/
def option {τ : Type} (encode : τ → Json) : Option τ → Json
  | none => null
  | some a => encode a

def get? (key : String) : Json → Option Json
  | object entries => entries.lookup key
  | _ => none

end Json
end FrameChain
