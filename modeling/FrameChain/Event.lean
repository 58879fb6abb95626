import FrameChain.Ids

set_option autoImplicit false

/-!
# The event log

What happened to the entities, the components and the bus of a scene, each entry with its frame.
-/
namespace FrameChain

inductive Event where
  | entityAdded (frame : Frame) (entity : EntityId) (name : String)
  | entityRemoved (frame : Frame) (entity : EntityId)
  | componentAttached (frame : Frame) (entity : EntityId) (component : ComponentId) (name : String)
  | componentFinished (frame : Frame) (entity : EntityId) (component : ComponentId) (name : String)
  | componentDetached (frame : Frame) (entity : EntityId) (component : ComponentId) (name : String)
  | componentRemoved (frame : Frame) (entity : EntityId) (component : ComponentId)
  | messageSent (frame : Frame) (key : String) (origin : Option EntityId)
deriving DecidableEq, Repr

namespace Event

def frame : Event → Frame
  | entityAdded frame .. | entityRemoved frame .. | componentAttached frame ..
  | componentFinished frame .. | componentDetached frame .. | componentRemoved frame ..
  | messageSent frame .. => frame

def kind : Event → String
  | entityAdded .. => "entity_added"
  | entityRemoved .. => "entity_removed"
  | componentAttached .. => "component_attached"
  | componentFinished .. => "component_finished"
  | componentDetached .. => "component_detached"
  | componentRemoved .. => "component_removed"
  | messageSent .. => "message_sent"

end Event
end FrameChain
