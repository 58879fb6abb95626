set_option autoImplicit false

/-!
# Identifiers and time

Entities and components carry numbers that a scene issues in order, from 1, and never reuses.
-/
namespace FrameChain

/-- Simulated time. -/
abbrev Seconds := Float

/-- The first update of a scene is frame 1. -/
abbrev Frame := Nat

structure EntityId where
  val : Nat
deriving DecidableEq, Repr, Inhabited

structure ComponentId where
  val : Nat
deriving DecidableEq, Repr, Inhabited

def EntityId.text (id : EntityId) : String := "e#" ++ toString id.val

def ComponentId.text (id : ComponentId) : String := "c#" ++ toString id.val

end FrameChain
