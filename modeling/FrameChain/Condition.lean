set_option autoImplicit false

/-!
# Conditions

A condition is a plain description of the entities it admits. An absent field asks for nothing.
-/
namespace FrameChain

structure Condition where
  name : Option String := none
  tag : Option String := none
  state : Option UInt32 := none
  /-- Every bit set here is set on the entity too. -/
  flags : UInt32 := 0
  /-- The entity carries a component of this name that has not stopped. -/
  hasComponent : Option String := none
deriving DecidableEq, Repr, Inhabited

namespace Condition

def any : Condition := {}

def withName (name : String) (c : Condition) : Condition := { c with name := some name }

def withTag (tag : String) (c : Condition) : Condition := { c with tag := some tag }

def withState (state : UInt32) (c : Condition) : Condition := { c with state := some state }

/-- Flags add up: each call asks for further bits. -/
def withFlags (flags : UInt32) (c : Condition) : Condition := { c with flags := c.flags ||| flags }

def withComponent (name : String) (c : Condition) : Condition := { c with hasComponent := some name }

end Condition
end FrameChain
