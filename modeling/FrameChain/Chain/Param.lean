import FrameChain.Script

set_option autoImplicit false

/-!
# Command parameters

A parameter is a value or a producer. A producer is called when its command is reached, and the result
is kept until the command is left.
-/
namespace FrameChain

inductive Param (ω τ : Type) where
  | value (a : τ)
  | producer (f : HostFun ω τ)

/-- A parameter and what it came to in the current pass over its command. -/
structure Lazy (ω τ : Type) where
  param : Param ω τ
  cached : Option τ := none

namespace Lazy

variable {κ ω τ : Type}

def reset (lazy : Lazy ω τ) : Lazy ω τ := { lazy with cached := none }

/-- Calls a producer in the first use of a pass only. -/
def resolve (lazy : Lazy ω τ) : Script κ ω (τ × Lazy ω τ) :=
  match lazy.cached with
  | some a => return (a, lazy)
  | none =>
    match lazy.param with
    | .value a => return (a, { lazy with cached := some a })
    | .producer f => do
      let a ← Script.host f
      return (a, { lazy with cached := some a })

end Lazy

/-- A component to attach: one instance, absent once it was handed out, or one per pass. -/
inductive Source (κ ω : Type) where
  | single (component : Option κ)
  | factory (f : ω → Except Crash κ × ω)

inductive Member (κ : Type) where
  /-- To be attached to the chain's entity when the set is resolved. -/
  | fresh (component : κ)
  /-- Only awaited. -/
  | existing (id : ComponentId)

/-- The set that a command awaits: a list, absent once it was resolved, or one per pass. -/
inductive MemberSet (κ ω : Type) where
  | members (list : Option (List (Member κ)))
  | factory (f : ω → Except Crash (List (Member κ)) × ω)

inductive Selector where
  | id (id : ComponentId)
  | name (name : String)
deriving DecidableEq, Repr

end FrameChain
