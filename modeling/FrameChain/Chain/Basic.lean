import FrameChain.Chain.Command
import FrameChain.Chain.Scopes

set_option autoImplicit false

/-!
# Chains

A chain is a list of commands with a cursor. The commands live in an arena and are linked in both
directions by index, so chains can be joined and cut without renumbering. What a waiting command has to
remember from frame to frame stands in a small record; no call stack outlives a frame.
-/
namespace FrameChain

structure Node (κ ω α : Type) where
  command : Command κ ω α
  next : Option NodeId := none
  previous : Option NodeId := none
  /-- Of an `if`: its `else` or `end`. Of an `else`: its `end`. -/
  jump : Option NodeId := none

/-- What the command under the cursor has to remember while it waits. -/
structure Scratch where
  waitStart : Option Seconds := none
  framesWaited : Option UInt32 := none
  messageKey : Option String := none
  arrived : Bool := false
  awaited : Option (List ComponentId) := none

structure Chain (κ ω α : Type) where
  name : String
  nodes : Array (Node κ ω α) := #[]
  head : Option NodeId := none
  tail : Option NodeId := none
  current : Option NodeId := none
  started : Bool := false
  attached : Bool := false
  finished : Bool := false
  /-- The jump targets have to be computed before the next step. -/
  jumpsStale : Bool := true
  scopes : Scopes := {}
  scratch : Scratch := {}
  /-- Each one finishes the chain as soon as it holds. -/
  interrupts : List (HostFun ω Bool) := []

namespace Chain

variable {κ ω α : Type}

/-- The nodes met from `start` along the links, at most `fuel` of them. -/
def follow (nodes : Array (Node κ ω α)) : Nat → Option NodeId → List NodeId
  | 0, _ => []
  | _ + 1, none => []
  | fuel + 1, some id => id :: follow nodes fuel (nodes[id]?.bind (·.next))

def walk (c : Chain κ ω α) : List NodeId := follow c.nodes c.nodes.size c.head

def opcode? (c : Chain κ ω α) (id : NodeId) : Option Opcode := c.nodes[id]?.map (·.command.opcode)

def opcodes (c : Chain κ ω α) : List Opcode := c.walk.filterMap c.opcode?

def commands (c : Chain κ ω α) : List (Command κ ω α) :=
  c.walk.filterMap fun id => c.nodes[id]?.map (·.command)

def length (c : Chain κ ω α) : Nat := c.walk.length

def isEmpty (c : Chain κ ω α) : Bool := c.head.isNone

def isRunning (c : Chain κ ω α) : Bool := c.started && !c.finished

def currentOpcode? (c : Chain κ ω α) : Option Opcode := c.current.bind c.opcode?

def modifyNode (c : Chain κ ω α) (id : NodeId) (f : Node κ ω α → Node κ ω α) : Chain κ ω α :=
  { c with nodes := c.nodes.modify id f }

end Chain
end FrameChain
