import FrameChain.Scene.Turn

set_option autoImplicit false

/-!
# The update of a scene

One update runs five phases in a fixed order: components added since the last update are attached,
queued messages are delivered, running components are updated in id order, messages sent meanwhile are
delivered, and components that stopped are retired together with the entities that are being removed.
The first failing callback ends the update.
-/
namespace FrameChain.Scene

open Turn

variable {κ ω : Type}

/-! ## Attaching -/

/-- Moves a component on, unless a callback has stopped it meanwhile. -/
def advance (id : ComponentId) (before after : Lifecycle) : Turn κ ω Bool := do
  match (← scene).slot? id with
  | some slot =>
    if slot.state = before then
      modifyScene fun s => s.modifySlot id fun slot => { slot with state := after }
      return true
    else return false
  | none => return false

def attachOne [Named κ] (b : Behaviour κ ω) (id : ComponentId) : Turn κ ω Unit := do
  if (← scene).lifecycle? id = some .new then
    modifyScene fun s => s.modifySlot id fun slot => { slot with initialized := true }
    call b .init id
    if ← advance id .new .initialized then
      call b .attach id
      if ← advance id .initialized .running then
        match (← scene).slot? id with
        | some slot =>
          modifyScene fun s => s.log (.componentAttached s.frame slot.owner id slot.name)
        | none => return

/-- A component that fails is detached, and the ones after it wait for the next update. -/
def attachEach [Named κ] (b : Behaviour κ ω) : List ComponentId → Turn κ ω Unit
  | [] => return
  | id :: rest => do
    match ← attempt (attachOne b id) with
    | .ok () => attachEach b rest
    | .error f =>
      perform fun s => s.stop id .detached
      modifyScene fun s => { s with attachQueue := rest ++ s.attachQueue }
      fail f

/-- Components added by callbacks of this phase wait for the next update. -/
def attachPending [Named κ] (b : Behaviour κ ω) : Turn κ ω Unit := do
  let batch := (← scene).attachQueue
  modifyScene fun s => { s with attachQueue := [] }
  attachEach b batch

/-! ## Delivering -/

/-- At its turn a recipient runs, is still subscribed, and its filter admits the message's origin. -/
def accepts (s : Scene κ) (m : Message) (recipient : Subscription) : Bool :=
  s.lifecycle? recipient.component = some .running &&
  s.bus.isSubscribed m.key recipient.component &&
  match recipient.filter with
  | none => true
  | some filter =>
    match m.origin with
    | none => false
    | some origin => s.isMatch origin filter

/-- After a failure the recipients not yet served stay with the message. -/
def serve [Named κ] (b : Behaviour κ ω) (m : Message) : List Subscription → Turn κ ω Unit
  | [] => return
  | recipient :: rest => do
    if (← scene).accepts m recipient then
      match ← attempt (call b (.message m) recipient.component) with
      | .ok () => serve b m rest
      | .error f =>
        modifyScene fun s => { s with interrupted := some ⟨m, rest⟩ }
        fail f
    else serve b m rest

/-- An interrupted delivery comes first; then the oldest message, to those subscribed by now. -/
def nextDelivery? (s : Scene κ) : Option (Delivery × Scene κ) :=
  match s.interrupted with
  | some delivery => some (delivery, { s with interrupted := none })
  | none => s.bus.pop?.map fun (m, bus) => (⟨m, s.bus.subscribers m.key⟩, { s with bus })

/-- Subscribers may send in turn, so the number of deliveries is bounded by fuel only. -/
def deliver [Named κ] (b : Behaviour κ ω) : Nat → Turn κ ω Unit
  | 0 => crash .exhausted
  | fuel + 1 => do
    match (← scene).nextDelivery? with
    | none => return
    | some (delivery, s) =>
      modifyScene fun _ => s
      serve b delivery.message delivery.recipients
      deliver b fuel

/-! ## Updating -/

/-- A component stopped before its turn is passed over. -/
def updateEach [Named κ] (b : Behaviour κ ω) (delta absolute : Seconds) : List ComponentId → Turn κ ω Unit
  | [] => return
  | id :: rest => do
    if (← scene).lifecycle? id = some .running then
      call b (.update delta absolute) id
    updateEach b delta absolute rest

def running (s : Scene κ) : List ComponentId :=
  (s.slots.filter fun slot => slot.state = .running).map (·.id)

/-! ## Retiring -/

/-- Components that never saw `init` are dropped without callbacks. -/
def retireCallbacks [Named κ] (b : Behaviour κ ω) (slot : Slot κ) : Turn κ ω Unit := do
  if slot.initialized then
    match slot.state with
    | .finished => call b .finish slot.id
    | .detached => call b .detach slot.id
    | _ => pure ()
    call b .remove slot.id

def dropSlot (s : Scene κ) (slot : Slot κ) : Scene κ :=
  let stopped : Event :=
    if slot.state = .finished then .componentFinished s.frame slot.owner slot.id slot.name
    else .componentDetached s.frame slot.owner slot.id slot.name
  { s.modifyEntity slot.owner fun e =>
      { e with components := e.components.filter fun id => id != slot.id } with
    events := s.events ++ [stopped, .componentRemoved s.frame slot.owner slot.id]
    bus := s.bus.unsubscribeAll slot.id
    slots := s.slots.filter fun other => other.id != slot.id }

def retireOne [Named κ] (b : Behaviour κ ω) (id : ComponentId) : Turn κ ω Unit := do
  match (← scene).slot? id with
  | none => return
  | some slot =>
    retireCallbacks b slot
    modifyScene fun s => s.dropSlot slot

def retireEach [Named κ] (b : Behaviour κ ω) : List ComponentId → Turn κ ω Unit
  | [] => return
  | id :: rest => do
    retireOne b id
    retireEach b rest

/-- Detaches what still runs on an entity that is being removed. -/
def detachComponents (s : Scene κ) (entity : EntityId) : Scene κ :=
  match s.entity? entity with
  | none => s
  | some e => e.components.foldl (fun s id => s.markStopped id .detached) s

def stopping (s : Scene κ) : List ComponentId :=
  (s.slots.filter fun slot => slot.state.isDone).map (·.id)

/-- Removes an entity without components. Another one is queued again: a retirement callback has
attached something to it, which the next round detaches. -/
def removeIfEmpty (s : Scene κ) (entity : EntityId) : Scene κ :=
  if (s.entity? entity).any fun e => e.components.isEmpty then
    { s with
      entities := s.entities.filter fun entry => entry.1 != entity
      events := s.events ++ [.entityRemoved s.frame entity] }
  else { s with removalQueue := s.removalQueue ++ [entity] }

/-- Rounds go on until nothing has stopped and no entity is being removed. -/
def retireRounds [Named κ] (b : Behaviour κ ω) : Nat → Turn κ ω Unit
  | 0 => crash .exhausted
  | fuel + 1 => do
    let doomed := (← scene).removalQueue
    modifyScene fun s => doomed.foldl detachComponents { s with removalQueue := [] }
    let stopping := (← scene).stopping
    if doomed.isEmpty && stopping.isEmpty then return
    retireEach b stopping
    modifyScene fun s => doomed.foldl removeIfEmpty s
    retireRounds b fuel

/-- Each round but the last two drops a component that had seen `init`, and callbacks make no such
component, so as many rounds as there are slots, and two more, are enough, if any number is: rounds that go on
after these change nothing and never end. -/
def retire [Named κ] (b : Behaviour κ ω) : Turn κ ω Unit := do
  retireRounds b ((← scene).slots.length + 2)

/-! ## The whole update -/

/-- `fuel` bounds the deliveries of each message phase. -/
def update [Named κ] (b : Behaviour κ ω) (fuel : Nat) (delta absolute : Seconds) : Turn κ ω Unit := do
  modifyScene fun s => { s with frame := s.frame + 1, absolute }
  attachPending b
  deliver b fuel
  updateEach b delta absolute (← scene).running
  deliver b fuel
  retire b

end FrameChain.Scene
