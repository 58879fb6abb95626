import FrameChain.Chain.Run

set_option autoImplicit false

/-!
# Components

A component of a scene is a chain, a driver that holds a chain of its own and steps it several times a
frame, or something that the host defines. The host also says what the actions of `call` do.
-/
namespace FrameChain

structure Driver (κ ω α : Type) where
  name : String
  /-- Steps of the chain per frame. -/
  times : Nat
  /-- Whether the chain sees the other callbacks too. -/
  forward : Bool
  chain : Chain κ ω α

/-- `δ` are the host's own components, `ω` its world, and `α` its actions. -/
inductive Component (δ ω α : Type) where
  | chain (c : Chain (Component δ ω α) ω α)
  | driver (d : Driver (Component δ ω α) ω α)
  | custom (d : δ)

structure Host (δ ω α : Type) where
  respond : Callback → Caller → δ → Script (Component δ ω α) ω (Except Failure Unit × δ)
  act : α → Caller → Script (Component δ ω α) ω (Except Failure Unit)

namespace Driver

variable {κ ω α : Type}

/-- The first failure ends the frame's steps. -/
def steps (b : Callback → Caller → Chain κ ω α → Script κ ω (Except Failure Unit × Chain κ ω α))
    (update : Callback) (self : Caller) :
    Nat → Chain κ ω α → Script κ ω (Except Failure Unit × Chain κ ω α)
  | 0, c => return (.ok (), c)
  | n + 1, c => do
    match ← b update self c with
    | (.ok (), c) => steps b update self n c
    | (.error f, c) => return (.error f, c)

def behaviour (act : α → Caller → Script κ ω (Except Failure Unit)) (fuel : Nat)
    (callback : Callback) (self : Caller) (d : Driver κ ω α) :
    Script κ ω (Except Failure Unit × Driver κ ω α) := do
  let b := Chain.behaviour act fuel
  let (outcome, chain) ←
    match callback with
    | .update .. => steps b callback self d.times d.chain
    | .init | .message _ | .finish | .detach =>
      if d.forward then b callback self d.chain else pure (.ok (), d.chain)
    | .attach | .remove => pure (.ok (), d.chain)
  return (outcome, { d with chain })

end Driver

namespace Component

variable {δ ω α : Type}

instance [Named δ] : Named (Component δ ω α) where
  name
    | chain c => c.name
    | driver d => d.name
    | custom d => Named.name d

def behaviour (host : Host δ ω α) (fuel : Nat) : Behaviour (Component δ ω α) ω
  | callback, self, chain c => do
    let (outcome, c) ← c.behaviour host.act fuel callback self
    return (outcome, chain c)
  | callback, self, driver d => do
    let (outcome, d) ← d.behaviour host.act fuel callback self
    return (outcome, driver d)
  | callback, self, custom d => do
    let (outcome, d) ← host.respond callback self d
    return (outcome, custom d)

def chain? : Component δ ω α → Option (Chain (Component δ ω α) ω α)
  | chain c => some c
  | driver d => some d.chain
  | custom _ => none

def withChain (c : Chain (Component δ ω α) ω α) : Component δ ω α → Component δ ω α
  | chain _ => chain c
  | driver d => driver { d with chain := c }
  | custom d => custom d

end Component
end FrameChain
