import FrameChain.Scene.Basic

set_option autoImplicit false

/-!
# Snapshots

What an inspector sees of a scene: its entities in key order, and the names and states of their
components in the order they were added.
-/
namespace FrameChain

structure ComponentSnapshot where
  id : ComponentId
  name : String
  state : Lifecycle
deriving DecidableEq

structure EntitySnapshot where
  id : EntityId
  name : String
  tag : Option String
  state : UInt32
  flags : UInt32
  removing : Bool
  components : List ComponentSnapshot
deriving DecidableEq

structure Snapshot where
  frame : Frame
  absolute : Seconds
  entities : List EntitySnapshot

namespace Scene

variable {κ : Type}

def componentSnapshot? (s : Scene κ) (id : ComponentId) : Option ComponentSnapshot :=
  (s.slot? id).map fun slot => ⟨id, slot.name, slot.state⟩

def entitySnapshot (s : Scene κ) (e : Entity) : EntitySnapshot :=
  { id := e.id
    name := e.name
    tag := e.tag
    state := e.state
    flags := e.flags
    removing := e.removing
    components := e.components.filterMap s.componentSnapshot? }

def snapshot (s : Scene κ) : Snapshot :=
  ⟨s.frame, s.absolute, s.entities.map fun (_, e) => s.entitySnapshot e⟩

end Scene
end FrameChain
