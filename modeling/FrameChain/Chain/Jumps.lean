import FrameChain.Chain.Basic

set_option autoImplicit false

/-!
# Jump targets

One pass over the commands links every `if` to its `else` or `end` and every `else` to its `end`. The
targets are those that a scan forward, counting depth, would find. A command without a partner is
reported before anything runs.
-/
namespace FrameChain

/-- A command without a partner, and the opcode it is missing. -/
structure Unmatched where
  opcode : Opcode
  expected : Opcode
deriving DecidableEq, Repr

/-- An `if` that is still open, with its `else` if that was met. -/
structure OpenIf where
  begin : NodeId
  branch : Option NodeId := none
deriving DecidableEq, Repr

/-- The links from a list of commands on, with the open ifs before it, innermost first. -/
def links : List OpenIf → List (NodeId × Opcode) → Except Unmatched (List (NodeId × NodeId))
  | [], [] => .ok []
  | _ :: _, [] => .error ⟨.beginIf, .endIf⟩
  | opened, (id, .beginIf) :: rest => links (⟨id, none⟩ :: opened) rest
  | opened, (id, .otherwise) :: rest =>
    match opened with
    | ⟨begin, none⟩ :: outer => links (⟨begin, some id⟩ :: outer) rest
    | _ => .error ⟨.otherwise, .beginIf⟩
  | opened, (id, .endIf) :: rest =>
    match opened with
    | [] => .error ⟨.endIf, .beginIf⟩
    | ⟨begin, none⟩ :: outer => do return (begin, id) :: (← links outer rest)
    | ⟨begin, some branch⟩ :: outer => do
      return (begin, branch) :: (branch, id) :: (← links outer rest)
  | opened, _ :: rest => links opened rest

namespace Chain

variable {κ ω α : Type}

def listing (c : Chain κ ω α) : List (NodeId × Opcode) :=
  c.walk.filterMap fun id => (c.opcode? id).map fun opcode => (id, opcode)

def setJump (c : Chain κ ω α) (id : NodeId) (target : Option NodeId) : Chain κ ω α :=
  c.modifyNode id fun node => { node with jump := target }

/-- Computes the jump targets afresh. A chain with an unmatched command stays as it is. -/
def resolveJumps (c : Chain κ ω α) : Except Failure (Chain κ ω α) :=
  match links [] c.listing with
  | .error ⟨opcode, expected⟩ => .error (.unmatchedCommand c.name opcode expected)
  | .ok found =>
    let cleared := c.walk.foldl (fun c id => c.setJump id none) c
    let linked := found.foldl (fun c link => c.setJump link.1 (some link.2)) cleared
    .ok { linked with jumpsStale := false }

end Chain
end FrameChain
