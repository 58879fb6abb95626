import FrameChain.Behaviour
import FrameChain.Chain.Jumps

set_option autoImplicit false

/-!
# Running a chain

A step runs commands until one of them has to wait for a later frame or the chain ends. Before every
command the chain looks whether its component was stopped and evaluates its interrupts. The chain is
threaded through failures too: a failing command stays under the cursor, with everything it did.
-/
namespace FrameChain

inductive Flow where
  | advance
  | jump (target : NodeId)
  /-- To the command after the target. -/
  | jumpPast (target : NodeId)
  /-- Stay until the next frame. -/
  | suspend
deriving DecidableEq, Repr

abbrev ChainRun (κ ω α τ : Type) := ExceptT Failure (StateT (Chain κ ω α) (Script κ ω)) τ

namespace ChainRun

variable {κ ω α τ : Type}

def script (p : Script κ ω τ) : ChainRun κ ω α τ := ExceptT.lift (StateT.lift p)

/-- A script whose failure is the chain's. -/
def demand (p : Script κ ω (Except Failure τ)) : ChainRun κ ω α τ := ExceptT.mk (StateT.lift p)

def run (t : ChainRun κ ω α τ) (c : Chain κ ω α) : Script κ ω (Except Failure τ × Chain κ ω α) :=
  StateT.run (ExceptT.run t) c

def chain : ChainRun κ ω α (Chain κ ω α) := get

def isDone (id : ComponentId) : ChainRun κ ω α Bool := do return (← script .scene).isDone id

def scratch : ChainRun κ ω α Scratch := do return (← chain).scratch

def modifyScratch (f : Scratch → Scratch) : ChainRun κ ω α Unit :=
  modify fun c => { c with scratch := f c.scratch }

/-- The node with this index; a chain whose links stay inside its arena always has one. -/
def node (id : NodeId) : ChainRun κ ω α (Node κ ω α) := do
  match (← chain).nodes[id]? with
  | some node => return node
  | none => script (.crash (.dangling id))

def setCommand (id : NodeId) (command : Command κ ω α) : ChainRun κ ω α Unit :=
  modify fun c => c.modifyNode id fun node => { node with command }

def openScope (id : NodeId) : ChainRun κ ω α Unit :=
  modify fun c => { c with scopes := c.scopes.push id }

def closeScope (closer : Opcode) : ChainRun κ ω α NodeId := do
  let c ← chain
  match c.scopes.pop? with
  | some (opener, scopes) =>
    set { c with scopes }
    return opener
  | none => throw (.emptyScope c.name closer)

def mismatch (opener : Command κ ω α) (closer : Opcode) : ChainRun κ ω α τ := do
  throw (.scopeMismatch (← chain).name opener.opcode closer)

def unmatched (opcode : Opcode) : ChainRun κ ω α τ := do
  throw (.unmatchedCommand (← chain).name opcode .endIf)

def consumed (opcode : Opcode) : ChainRun κ ω α τ := do
  throw (.componentConsumed (← chain).name opcode)

/-- An absent target is the caller's entity. -/
def resolveTarget (self : Caller) (target : Option (Lazy ω EntityId)) :
    ChainRun κ ω α (EntityId × Option (Lazy ω EntityId)) := do
  match target with
  | none => return (self.entity, none)
  | some target =>
    let (id, target) ← script target.resolve
    return (id, some target)

/-- The moment the wait began, which is now if it has not begun. -/
def waitStart (absolute : Seconds) : ChainRun κ ω α Seconds := do
  let start := (← scratch).waitStart.getD absolute
  modifyScratch fun s => { s with waitStart := some start }
  return start

/-- Attaches the fresh members in order; the ids of all members. -/
def enlist (owner : EntityId) : List (Member κ) → ChainRun κ ω α (List ComponentId)
  | [] => return []
  | .fresh component :: rest => do
    let id ← demand (.request (.addComponent owner component))
    return id :: (← enlist owner rest)
  | .existing id :: rest => do return id :: (← enlist owner rest)

/-- The awaited set of the command at `id`, resolved once per pass. -/
def awaited (self : Caller) (id : NodeId) (set : MemberSet κ ω)
    (command : MemberSet κ ω → Command κ ω α) : ChainRun κ ω α (List ComponentId) := do
  match (← scratch).awaited with
  | some ids => return ids
  | none =>
    let members ←
      match set with
      | .members (some list) => do
        setCommand id (command (.members none))
        pure list
      | .members none => consumed (command set).opcode
      | .factory f => script (.host f)
    let ids ← enlist self.entity members
    modifyScratch fun s => { s with awaited := some ids }
    return ids

def endAwait (done : Bool) : ChainRun κ ω α Flow := do
  if done then
    modifyScratch fun s => { s with awaited := none }
    return .advance
  else return .suspend

def finishEach : List ComponentId → ChainRun κ ω α Unit
  | [] => return
  | id :: rest => do
    if !(← isDone id) then
      demand (.request (.stop id .finished))
    finishEach rest

def awaitMessage (key : String) (filter : Option Condition) : ChainRun κ ω α Flow := do
  let s ← scratch
  if s.messageKey.isNone then
    demand (.request (.subscribe key filter))
    modifyScratch fun s => { s with messageKey := some key, arrived := false }
    return .suspend
  else if s.arrived then
    script (.request (.unsubscribe key))
    modifyScratch fun s => { s with messageKey := none, arrived := false }
    return .advance
  else return .suspend

def openRepeat (id : NodeId) (times : Lazy ω UInt32) (infinite : Bool) : ChainRun κ ω α Flow := do
  let (n, resolved) ← script times.resolve
  setCommand id (.beginRepeat resolved (if times.cached.isNone then n == 0 else infinite))
  openScope id
  return .advance

def closeRepeat : ChainRun κ ω α Flow := do
  let opener ← closeScope .endRepeat
  match (← node opener).command with
  | .beginRepeat _ true => return .jump opener
  | .beginRepeat times false =>
    let (n, resolved) ← script times.resolve
    if 1 < n then
      setCommand opener (.beginRepeat { resolved with cached := some (n - 1) } false)
      return .jump opener
    else
      setCommand opener (.beginRepeat times.reset false)
      return .advance
  | other => mismatch other .endRepeat

def closeWhile : ChainRun κ ω α Flow := do
  let opener ← closeScope .endWhile
  match (← node opener).command with
  | .beginWhile holds => if ← script (.host holds) then return .jump opener else return .advance
  | other => mismatch other .endWhile

def openInterval (absolute : Seconds) (id : NodeId) (seconds : Lazy ω Seconds) :
    ChainRun κ ω α Flow := do
  let (seconds, resolved) ← script seconds.resolve
  setCommand id (.beginInterval resolved)
  let start ← waitStart absolute
  if absolute - start ≥ seconds then
    modifyScratch fun s => { s with waitStart := none }
    openScope id
    return .advance
  else return .suspend

def closeInterval : ChainRun κ ω α Flow := do
  let opener ← closeScope .endInterval
  match (← node opener).command with
  | .beginInterval _ => return .jump opener
  | other => mismatch other .endInterval

/-- Passes by a branch to where its command jumps. -/
def jumpPast (target : Option NodeId) (opcode : Opcode) : ChainRun κ ω α Flow :=
  match target with
  | some target => return .jumpPast target
  | none => unmatched opcode

def awaitTime (absolute : Seconds) (id : NodeId) (seconds : Lazy ω Seconds) :
    ChainRun κ ω α Flow := do
  let (seconds, resolved) ← script seconds.resolve
  setCommand id (.waitTime resolved)
  let start ← waitStart absolute
  if absolute - start > seconds then
    modifyScratch fun s => { s with waitStart := none }
    return .advance
  else return .suspend

def awaitFrames (id : NodeId) (frames : Lazy ω UInt32) : ChainRun κ ω α Flow := do
  let (frames, resolved) ← script frames.resolve
  setCommand id (.waitFrames resolved)
  match (← scratch).framesWaited with
  | none =>
    modifyScratch fun s => { s with framesWaited := some 0 }
    return .suspend
  | some waited =>
    if waited + 1 > frames then
      modifyScratch fun s => { s with framesWaited := none }
      return .advance
    else
      modifyScratch fun s => { s with framesWaited := some (waited + 1) }
      return .suspend

def awaitMessageWhere (id : NodeId) (key : String) (condition : Lazy ω Condition) :
    ChainRun κ ω α Flow := do
  let (condition, resolved) ← script condition.resolve
  setCommand id (.waitForMessageWhere key resolved)
  awaitMessage key (some condition)

def awaitAll (self : Caller) (id : NodeId) (set : MemberSet κ ω) : ChainRun κ ω α Flow := do
  let ids ← awaited self id set .waitForAll
  let s ← script .scene
  endAwait (ids.all s.isDone)

def awaitFirst (self : Caller) (id : NodeId) (set : MemberSet κ ω) : ChainRun κ ω α Flow := do
  let ids ← awaited self id set .waitForFirst
  let s ← script .scene
  if ids.any s.isDone then finishEach ids
  endAwait (ids.isEmpty || ids.any s.isDone)

/-- The component to add; an instance is given away once. -/
def produce (id : NodeId) (source : Source κ ω) (target : Option (Lazy ω EntityId)) :
    ChainRun κ ω α κ :=
  match source with
  | .single (some component) => do
    setCommand id (.addComponent (.single none) target)
    return component
  | .single none => consumed .addComponent
  | .factory f => script (.host f)

def attach (self : Caller) (id : NodeId) (source : Source κ ω) (target : Option (Lazy ω EntityId)) :
    ChainRun κ ω α Flow := do
  let (entity, target) ← resolveTarget self target
  setCommand id (.addComponent source target)
  let component ← produce id source target
  let _ ← demand (.request (.addComponent entity component))
  return .advance

def pick (entity : EntityId) (selector : Selector) : ChainRun κ ω α ComponentId :=
  match selector with
  | .id component => return component
  | .name name => do
    match (← script .scene).findComponent? entity name with
    | some component => return component
    | none => throw (.componentNameNotFound entity name)

def detach (self : Caller) (id : NodeId) (selector : Lazy ω Selector)
    (target : Option (Lazy ω EntityId)) : ChainRun κ ω α Flow := do
  let (entity, target) ← resolveTarget self target
  setCommand id (.removeComponent selector target)
  let (chosen, resolved) ← script selector.resolve
  setCommand id (.removeComponent resolved target)
  let component ← pick entity chosen
  demand (.request (.stop component .detached))
  return .advance

def removeEach (entities : List EntityId) : ChainRun κ ω α Unit :=
  entities.forM fun entity => demand (.request (.removeEntity entity))

def removeWhere (id : NodeId) (condition : Lazy ω Condition) : ChainRun κ ω α Flow := do
  let (condition, resolved) ← script condition.resolve
  setCommand id (.removeEntitiesWhere resolved)
  removeEach ((← script .scene).findEntities condition)
  return .advance

def removeTarget (self : Caller) (id : NodeId) (target : Option (Lazy ω EntityId)) :
    ChainRun κ ω α Flow := do
  let (entity, target) ← resolveTarget self target
  setCommand id (.removeEntity target)
  demand (.request (.removeEntity entity))
  return .advance

def send (id : NodeId) (key : String) (data : Lazy ω Json) : ChainRun κ ω α Flow := do
  let (data, resolved) ← script data.resolve
  setCommand id (.sendMessage key resolved)
  script (.request (.send key data))
  return .advance

def dispatch (act : α → Caller → Script κ ω (Except Failure Unit)) (self : Caller)
    (absolute : Seconds) (id : NodeId) : ChainRun κ ω α Flow := do
  let here ← node id
  match here.command with
  | .beginRepeat times infinite => openRepeat id times infinite
  | .endRepeat => closeRepeat
  | .call action =>
    demand (act action self)
    return .advance
  | .beginWhile _ =>
    openScope id
    return .advance
  | .endWhile => closeWhile
  | .beginInterval seconds => openInterval absolute id seconds
  | .endInterval => closeInterval
  | .beginIf holds => if ← script (.host holds) then return .advance else jumpPast here.jump .beginIf
  | .otherwise => jumpPast here.jump .otherwise
  | .endIf => return .advance
  | .waitTime seconds => awaitTime absolute id seconds
  | .addComponent source target => attach self id source target
  | .waitForAll set => awaitAll self id set
  | .waitForFirst set => awaitFirst self id set
  | .waitUntil holds => if ← script (.host holds) then return .suspend else return .advance
  | .waitFrames frames => awaitFrames id frames
  | .waitForMessage key => awaitMessage key none
  | .waitForMessageWhere key condition => awaitMessageWhere id key condition
  | .removeComponent selector target => detach self id selector target
  | .removeEntitiesWhere condition => removeWhere id condition
  | .removeEntity target => removeTarget self id target
  | .sendMessage key data => send id key data

/-- Leaving a command forgets its parameters, except the count of a loop that goes on. -/
def leave (id : NodeId) : ChainRun κ ω α Unit :=
  modify fun c => c.modifyNode id fun node =>
    if node.command.opcode = .beginRepeat then node else { node with command := node.command.reset }

def moveAfter (id : NodeId) : ChainRun κ ω α Unit := do
  let past ← node id
  modify fun c => { c with current := past.next }

/-- Drops the wait with its subscription, the open scopes and the cursor. -/
def release : ChainRun κ ω α Unit := do
  match (← scratch).messageKey with
  | some key => script (.request (.unsubscribe key))
  | none => pure ()
  modify fun c => { c with scratch := {}, scopes := c.scopes.clear, current := none }

def complete : ChainRun κ ω α Unit := do
  release
  modify fun c => { c with finished := true }
  script (.request .finish)

def anyHolds : List (HostFun ω Bool) → Script κ ω Bool
  | [] => return false
  | holds :: rest => do if ← Script.host holds then return true else anyHolds rest

/-- At most one command, with the checks before it. True if the step goes on. -/
def round (act : α → Caller → Script κ ω (Except Failure Unit)) (self : Caller)
    (absolute : Seconds) : ChainRun κ ω α Bool := do
  if ← isDone self.component then return false
  if ← script (anyHolds (← chain).interrupts) then
    complete
    return false
  let c ← chain
  match c.current with
  | none =>
    if !c.scopes.isEmpty then throw (.unterminatedScope c.name c.scopes.depth)
    complete
    return false
  | some id =>
    match ← dispatch act self absolute id with
    | .advance =>
      leave id
      moveAfter id
      return true
    | .jump target =>
      modify fun c => { c with current := some target }
      return true
    | .jumpPast target =>
      leave id
      moveAfter target
      return true
    | .suspend => return false

/-- A chain can loop within a step, so the number of commands is bounded by fuel only. -/
def rounds (act : α → Caller → Script κ ω (Except Failure Unit)) (self : Caller)
    (absolute : Seconds) : Nat → ChainRun κ ω α Unit
  | 0 => script (.crash .exhausted)
  | fuel + 1 => do
    if ← round act self absolute then rounds act self absolute fuel

/-- Gets a chain ready to run: jump targets first, then the cursor on the first command. -/
def start : ChainRun κ ω α Unit := do
  let c ← chain
  if c.finished then throw (.chainFinished c.name)
  if c.jumpsStale then
    match c.resolveJumps with
    | .ok c => set c
    | .error f => throw f
  let c ← chain
  if !c.started then set { c with started := true, current := c.head }

def step (act : α → Caller → Script κ ω (Except Failure Unit)) (fuel : Nat) (self : Caller)
    (absolute : Seconds) : ChainRun κ ω α Unit := do
  start
  rounds act self absolute fuel

/-- A message counts only for the wait on its own key. -/
def notice (m : Message) : ChainRun κ ω α Unit := do
  let c ← chain
  match c.current with
  | none => return
  | some id =>
    let opcode := (← node id).command.opcode
    let waiting := opcode = .waitForMessage || opcode = .waitForMessageWhere
    if waiting && c.scratch.messageKey == some m.key then
      modifyScratch fun s => { s with arrived := true }

def shutDown : ChainRun κ ω α Unit := do
  release
  modify fun c => { c with finished := true }

end ChainRun

def Chain.behaviour {κ ω α : Type} (act : α → Caller → Script κ ω (Except Failure Unit))
    (fuel : Nat) : Callback → Caller → Chain κ ω α → Script κ ω (Except Failure Unit × Chain κ ω α)
  | .init, _, c => return (.ok (), { c with attached := true })
  | .update _ absolute, self, c => (ChainRun.step act fuel self absolute).run c
  | .message m, _, c => (ChainRun.notice m).run c
  | .finish, _, c | .detach, _, c => ChainRun.shutDown.run c
  | .attach, _, c | .remove, _, c => return (.ok (), c)

end FrameChain
