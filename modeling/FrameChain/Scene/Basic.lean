import FrameChain.Bus
import FrameChain.Event
import FrameChain.Failure
import FrameChain.Lifecycle

set_option autoImplicit false

/-!
# Scenes

A scene holds entities, which are plain records, and component slots, which give them behaviour. This
module has the scene's state, its queries, and the operations that hosts and callbacks share. None of
them calls a component: attaching, stopping and removing only mark what the next update carries out.
-/
namespace FrameChain

class Named (κ : Type) where
  name : κ → String

/-- What a scene keeps of an entity. Whoever may write to it can write its id too, or put another record in
its place, so a scene finds it by the key that it is kept under. -/
structure Entity where
  id : EntityId
  name : String
  tag : Option String := none
  state : UInt32 := 0
  flags : UInt32 := 0
  /-- The components attached or about to be attached, in the order they were added. -/
  components : List ComponentId := []
  /-- Removal was asked for and is carried out at the end of an update. -/
  removing : Bool := false
deriving DecidableEq

structure Slot (κ : Type) where
  id : ComponentId
  owner : EntityId
  name : String
  state : Lifecycle := .new
  /-- The init callback was called. -/
  initialized : Bool := false
  /-- Absent while a callback of the component runs. -/
  component : Option κ

/-- A message whose delivery stopped at a failing subscriber, with the subscribers still to serve. -/
structure Delivery where
  message : Message
  recipients : List Subscription

structure Scene (κ : Type) where
  entitiesIssued : Nat := 0
  componentsIssued : Nat := 0
  frame : Frame := 0
  absolute : Seconds := 0
  /-- Each under its key, in key order. -/
  entities : List (EntityId × Entity) := []
  /-- In id order. -/
  slots : List (Slot κ) := []
  attachQueue : List ComponentId := []
  interrupted : Option Delivery := none
  removalQueue : List EntityId := []
  bus : Bus := {}
  /-- What happened since the log was last drained, oldest first. -/
  events : List Event := []

/-- The changes asked of an entity: a whole record may take its place, and fields are written after that.
An absent field stays, and a tag can be cleared. -/
structure EntityPatch where
  record : Option Entity := none
  id : Option EntityId := none
  name : Option String := none
  tag : Option (Option String) := none
  state : Option UInt32 := none
  flags : Option UInt32 := none

def EntityPatch.apply (patch : EntityPatch) (e : Entity) : Entity :=
  let e := patch.record.getD e
  { e with
    id := patch.id.getD e.id
    name := patch.name.getD e.name
    tag := patch.tag.getD e.tag
    state := patch.state.getD e.state
    flags := patch.flags.getD e.flags }

def Condition.admits (c : Condition) (e : Entity) : Bool :=
  (match c.name with | none => true | some name => e.name == name) &&
  (match c.tag with | none => true | some tag => e.tag == some tag) &&
  (match c.state with | none => true | some state => e.state == state) &&
  (e.flags &&& c.flags) == c.flags

namespace Scene

variable {κ : Type}

/-! ## Queries -/

def entity? (s : Scene κ) (key : EntityId) : Option Entity :=
  (s.entities.find? fun entry => entry.1 == key).map (·.2)

def slot? (s : Scene κ) (id : ComponentId) : Option (Slot κ) := s.slots.find? fun t => t.id == id

/-- Ids are never reused, so an issued id without a slot belongs to a removed component. -/
def wasIssued (s : Scene κ) (id : ComponentId) : Bool := 0 < id.val && id.val ≤ s.componentsIssued

/-- `none` for an id that this scene never issued. -/
def lifecycle? (s : Scene κ) (id : ComponentId) : Option Lifecycle :=
  match s.slot? id with
  | some slot => some slot.state
  | none => if s.wasIssued id then some .removed else none

/-- The component has stopped, or never was in this scene. -/
def isDone (s : Scene κ) (id : ComponentId) : Bool :=
  match s.lifecycle? id with
  | some state => state.isDone
  | none => true

def componentName? (s : Scene κ) (id : ComponentId) : Option String := (s.slot? id).map (·.name)

/-- The first component of that name on the entity that has not stopped. -/
def findComponent? (s : Scene κ) (entity : EntityId) (name : String) : Option ComponentId :=
  (s.entity? entity).bind fun e =>
    e.components.find? fun id =>
      match s.slot? id with
      | some slot => slot.name == name && !slot.state.isDone
      | none => false

/-- An unknown entity matches nothing. -/
def isMatch (s : Scene κ) (id : EntityId) (c : Condition) : Bool :=
  match s.entity? id with
  | none => false
  | some e =>
      c.admits e &&
        match c.hasComponent with
        | none => true
        | some name => (s.findComponent? id name).isSome

/-- The ids of the matching entities in key order, without those that are being removed. -/
def findEntities (s : Scene κ) (c : Condition) : List EntityId :=
  (s.entities.filter fun (_, e) => !e.removing && s.isMatch e.id c).map fun (_, e) => e.id

/-- No component is running or waits to be attached. -/
def isIdle (s : Scene κ) : Bool := s.slots.all fun slot => slot.state.isDone

/-- The component with this id, unless one of its callbacks is running. -/
def component? (s : Scene κ) (id : ComponentId) : Option κ := (s.slot? id).bind (·.component)

/-! ## Changes -/

def log (s : Scene κ) (event : Event) : Scene κ := { s with events := s.events ++ [event] }

def modifyEntity (s : Scene κ) (key : EntityId) (f : Entity → Entity) : Scene κ :=
  { s with entities := s.entities.map fun entry =>
      if entry.1 == key then (entry.1, f entry.2) else entry }

def modifySlot (s : Scene κ) (id : ComponentId) (f : Slot κ → Slot κ) : Scene κ :=
  { s with slots := s.slots.map fun slot => if slot.id == id then f slot else slot }

def addEntity (s : Scene κ) (name : String) : EntityId × Scene κ :=
  let id : EntityId := ⟨s.entitiesIssued + 1⟩
  (id, { s with
    entitiesIssued := id.val
    entities := s.entities ++ [(id, { id, name })]
    events := s.events ++ [.entityAdded s.frame id name] })

def patchEntity (s : Scene κ) (key : EntityId) (patch : EntityPatch) : Bool × Scene κ :=
  ((s.entity? key).isSome, s.modifyEntity key patch.apply)

/-- Marks an entity for removal; asking again changes nothing. -/
def removeEntity (s : Scene κ) (id : EntityId) : Except Failure Unit × Scene κ :=
  match s.entity? id with
  | none => (.error (.entityNotFound id), s)
  | some e =>
      if e.removing then (.ok (), s)
      else
        (.ok (), { s.modifyEntity id fun e => { e with removing := true } with
          removalQueue := s.removalQueue ++ [id] })

/-- The new component stays new until the next update attaches it. -/
def addComponent [Named κ] (s : Scene κ) (owner : EntityId) (component : κ) :
    Except Failure ComponentId × Scene κ :=
  match s.entity? owner with
  | none => (.error (.entityNotFound owner), s)
  | some _ =>
      let id : ComponentId := ⟨s.componentsIssued + 1⟩
      let slot : Slot κ := { id, owner, name := Named.name component, component := some component }
      (.ok id, { s.modifyEntity owner fun e => { e with components := e.components ++ [id] } with
        componentsIssued := id.val
        slots := s.slots ++ [slot]
        attachQueue := s.attachQueue ++ [id] })

inductive Ending where
  | finished
  | detached
deriving DecidableEq, Repr

def Ending.lifecycle : Ending → Lifecycle
  | finished => .finished
  | detached => .detached

/-- The first stop decides; a component that has stopped keeps its state. -/
def markStopped (s : Scene κ) (id : ComponentId) (ending : Ending) : Scene κ :=
  s.modifySlot id fun slot =>
    if slot.state.isDone then slot else { slot with state := ending.lifecycle }

def stop (s : Scene κ) (id : ComponentId) (ending : Ending) : Except Failure Unit × Scene κ :=
  match s.slot? id with
  | some _ => (.ok (), s.markStopped id ending)
  | none => (if s.wasIssued id then .ok () else .error (.componentNotFound id), s)

def sendMessage (s : Scene κ) (key : String) (data : Json) (origin : Option EntityId) : Scene κ :=
  { s.log (.messageSent s.frame key origin) with bus := s.bus.send ⟨key, data, origin⟩ }

def subscribe (s : Scene κ) (key : String) (component : ComponentId) (filter : Option Condition) :
    Except Failure Unit × Scene κ :=
  match s.slot? component with
  | none => (.error (.componentNotFound component), s)
  | some _ => (.ok (), { s with bus := s.bus.subscribe key component filter })

def unsubscribe (s : Scene κ) (key : String) (component : ComponentId) : Scene κ :=
  { s with bus := s.bus.unsubscribe key component }

def drainEvents (s : Scene κ) : List Event × Scene κ := (s.events, { s with events := [] })

end Scene
end FrameChain
