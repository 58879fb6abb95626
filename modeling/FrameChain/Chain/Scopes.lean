set_option autoImplicit false

/-!
# The scope stack

The loop openers whose blocks are open, so that a closer finds its way back.
-/
namespace FrameChain

abbrev NodeId := Nat

structure Scopes where
  /-- Innermost first. -/
  entries : List NodeId := []
deriving DecidableEq, Repr

namespace Scopes

def push (scopes : Scopes) (opener : NodeId) : Scopes := ⟨opener :: scopes.entries⟩

def pop? (scopes : Scopes) : Option (NodeId × Scopes) :=
  match scopes.entries with
  | [] => none
  | opener :: rest => some (opener, ⟨rest⟩)

def depth (scopes : Scopes) : Nat := scopes.entries.length

def isEmpty (scopes : Scopes) : Bool := scopes.entries.isEmpty

def clear (_ : Scopes) : Scopes := {}

end Scopes
end FrameChain
