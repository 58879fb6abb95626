import FrameChain.Document.Config
import FrameChain.Document.Event
import FrameChain.Engine
import FrameChain.Json.Printer
import FrameChain.Scenario.Perform

set_option autoImplicit false

/-!
# Sessions

A session is one engine driven by steps. Chains can be built and joined outside the scene before they
are attached. Each step has an answer, which is a document, and leaves a trace. A failure is an answer
too; a crash is the last one.
-/
namespace FrameChain.Scenario

/-- A chain that was built, or the chain of a component in the scene. -/
inductive ChainRef where
  | built (name : String)
  | component (id : ComponentId)
deriving DecidableEq, Repr

inductive Step where
  | addEntity (name : String) (patch : EntityPatch)
  | patchEntity (id : EntityId) (patch : EntityPatch)
  | getEntity (id : EntityId)
  | entities
  | removeEntity (id : EntityId)
  | isMatch (id : EntityId) (condition : Condition)
  | findWhere (condition : Condition)
  | attach (entity : EntityId) (component : ComponentPlan)
  | attachBuilt (entity : EntityId) (name : String)
  | removeComponent (id : ComponentId)
  | finishComponent (id : ComponentId)
  | state (id : ComponentId)
  | find (entity : EntityId) (name : String)
  | inspect (id : ComponentId)
  | send (key : String) (data : Json) (origin : Option EntityId)
  | subscribe (key : String) (id : ComponentId) (filter : Option Condition)
  | unsubscribe (key : String) (id : ComponentId)
  | isSubscribed (key : String) (id : ComponentId)
  | pending
  | tick
  | run (frames : Nat)
  | untilIdle (max : Nat)
  | update (delta absolute : Seconds)
  | drain
  | kinds
  | isIdle
  | now
  | snapshot
  | snapshotText
  | clock
  | pause
  | resume
  | setSpeed (speed : Speed)
  | config
  | random (entity : EntityId)
  | build (ref name : String) (commands : List CommandPlan)
  | append (ref : String) (commands : List CommandPlan)
  | describe (ref : String)
  | removeLast (ref : ChainRef)
  | merge (into donor : ChainRef) (atBeginning : Bool)
  | set (var : String) (value : Int)
  | get (var : String)

structure Session where
  engine : Engine Part
  world : World
  /-- The chains that were built and not attached. -/
  chains : List (String × PartChain) := []

inductive StepError where
  | halt (h : Halt)
  /-- The step names a chain that is not there. -/
  | noChain

abbrev SessionM (τ : Type) := ExceptT StepError (StateM Session) τ

namespace Session

def new (config : Config) : Session :=
  { engine := .new config, world := { seed := config.seed } }

/-- How many deliveries a message phase may take, and how many commands a step of a chain. -/
def fuel : Nat := 1000000000

def behaviour : Behaviour Part World := Component.behaviour host fuel

def scene : SessionM (Scene Part) := do return (← MonadState.get).engine.scene

def modifyScene (f : Scene Part → Scene Part) : SessionM Unit :=
  modify fun s => { s with engine := { s.engine with scene := f s.engine.scene } }

def modifyClock (f : Clock → Clock) : SessionM Unit :=
  modify fun s => { s with engine := { s.engine with clock := f s.engine.clock } }

def fail {τ : Type} (f : Failure) : SessionM τ := throw (.halt (.failure f))

def perform {τ : Type} (f : Scene Part → Except Failure τ × Scene Part) : SessionM τ := do
  let (answer, scene) := f (← scene)
  modifyScene fun _ => scene
  match answer with
  | .ok a => return a
  | .error f => fail f

def drive {τ : Type} (d : Engine.Drive Part World τ) : SessionM τ := do
  let s ← MonadState.get
  let (answer, run) := d.run ⟨s.engine, s.world⟩
  MonadState.set { s with engine := run.engine, world := run.world }
  match answer with
  | .ok a => return a
  | .error h => throw (.halt h)

def built {τ : Type} (build : World → τ × World) : SessionM τ := do
  let (a, world) := build (← MonadState.get).world
  modify fun s => { s with world }
  return a

def chain (ref : ChainRef) : SessionM PartChain := do
  let found : Option PartChain ←
    match ref with
    | .built name => do pure ((← MonadState.get).chains.lookup name)
    | .component id => do pure (((← scene).component? id).bind (·.chain?))
  match found with
  | some c => return c
  | none => throw .noChain

def setChain (ref : ChainRef) (c : PartChain) : SessionM Unit :=
  match ref with
  | .built name => modify fun s =>
    { s with chains := (name, c) :: s.chains.filter fun entry => entry.1 != name }
  | .component id => modifyScene fun s =>
    s.modifySlot id fun slot => { slot with component := slot.component.map (·.withChain c) }

/-- A restructured chain, or why it must not be restructured. -/
def restructure {τ : Type} (outcome : Except Failure τ) : SessionM τ :=
  match outcome with
  | .ok a => return a
  | .error f => fail f

/-! ## Answers -/

def describeChain (c : PartChain) : Json :=
  let current : Json := .option (fun opcode => .text opcode.text) c.currentOpcode?
  .object [("name", .text c.name), ("len", .nat c.length), ("empty", .bool c.isEmpty),
    ("running", .bool c.isRunning), ("finished", .bool c.finished), ("current", current),
    ("current_text", current), ("opcodes", .list (c.opcodes.map fun opcode => .text opcode.text))]

def describeEntity (e : Entity) : Json :=
  .object [("id", e.id.toJson), ("name", .text e.name), ("tag", .option .text e.tag),
    ("state", .nat e.state.toNat), ("flags", .nat e.flags.toNat), ("removing", .bool e.removing),
    ("components", .list (e.components.map ComponentId.toJson))]

def describeEvents (events : List Event) : Json := .list (events.map Event.toJson)

def describeState (s : Scene Part) (id : ComponentId) : Json :=
  .list [.option Lifecycle.toJson (s.lifecycle? id), .bool (s.isDone id),
    .option .text (s.componentName? id)]

def describeStream (stream : RandomStream) : Json :=
  let (x, after) := stream.unit
  let n : Json :=
    match (after.below 0xffffffffffffffff).1 with
    | .ok n => .text (toString n.toNat)
    | .error _ => .null
  .list [.text stream.name, .float x, n]

/-! ## Steps -/

def step (s : Step) : SessionM Json :=
  match s with
  | .addEntity name patch => do
    let (id, scene) := (← scene).addEntity name
    modifyScene fun _ => (scene.patchEntity id patch).2
    return id.toJson
  | .patchEntity id patch => do
    let (known, scene) := (← scene).patchEntity id patch
    modifyScene fun _ => scene
    return .bool known
  | .getEntity id => do return .option describeEntity ((← scene).entity? id)
  | .entities => do return .list ((← scene).entities.map fun (_, e) => describeEntity e)
  | .removeEntity id => do
    perform fun s => s.removeEntity id
    return .null
  | .isMatch id condition => do return .bool ((← scene).isMatch id condition)
  | .findWhere condition => do
    return .list (((← scene).findEntities condition).map EntityId.toJson)
  | .attach entity plan => do
    let component ← built (buildComponent plan)
    return (← perform fun s => s.addComponent entity component).toJson
  | .attachBuilt entity name => do
    let c ← chain (.built name)
    modify fun s => { s with chains := s.chains.filter fun entry => entry.1 != name }
    return (← perform fun s => s.addComponent entity (Component.chain c)).toJson
  | .removeComponent id => do
    perform fun s => s.stop id .detached
    return .null
  | .finishComponent id => do
    perform fun s => s.stop id .finished
    return .null
  | .state id => do return describeState (← scene) id
  | .find entity name => do
    return .option ComponentId.toJson ((← scene).findComponent? entity name)
  | .inspect id => do
    return .option describeChain (((← scene).component? id).bind (·.chain?))
  | .send key data origin => do
    modifyScene fun s => s.sendMessage key data origin
    return .null
  | .subscribe key id filter => do
    perform fun s => s.subscribe key id filter
    return .null
  | .unsubscribe key id => do
    modifyScene fun s => s.unsubscribe key id
    return .null
  | .isSubscribed key id => do return .bool ((← scene).bus.isSubscribed key id)
  | .pending => do return .nat (← scene).bus.pending
  | .tick => do return describeEvents (← drive (Engine.tick behaviour fuel))
  | .run frames => do return describeEvents (← drive (Engine.runFrames behaviour fuel frames))
  | .untilIdle max => do return .nat (← drive (Engine.runUntilIdle behaviour fuel max))
  | .update delta absolute => do
    drive (Engine.turn (Scene.update behaviour fuel delta absolute))
    return .null
  | .drain => do return describeEvents (← drive Engine.drain)
  | .kinds => do
    let events ← drive Engine.drain
    return .list (events.map fun event => .text event.kind)
  | .isIdle => do return .bool (← scene).isIdle
  | .now => do
    let s ← scene
    return .list [.nat s.frame, .float s.absolute]
  | .snapshot => do return (← scene).snapshot.toJson
  | .snapshotText => do return .text (← scene).snapshot.toJson.indented
  | .clock => do return (← MonadState.get).engine.clock.toJson
  | .pause => do
    modifyClock Clock.pause
    return .null
  | .resume => do
    modifyClock Clock.resume
    return .null
  | .setSpeed speed => do
    modifyClock fun clock => { clock with speed }
    return .null
  | .config => do
    let config := (← MonadState.get).engine.config
    return .list [config.toJson, .float config.step]
  | .random entity => do return describeStream ((← MonadState.get).engine.randomFor entity)
  | .build ref name commands => do
    let c ← built (appendAll { name } commands)
    setChain (.built ref) c
    return describeChain c
  | .append ref commands => do
    let c ← chain (.built ref)
    let c ← built (appendAll c commands)
    setChain (.built ref) c
    return describeChain c
  | .describe ref => do return describeChain (← chain (.built ref))
  | .removeLast ref => do
    let c ← restructure (← chain ref).removeLast
    setChain ref c
    return describeChain c
  | .merge into donor atBeginning => do
    if into = donor then throw .noChain
    let c ← chain into
    let d ← chain donor
    let (c, d) ← restructure (if atBeginning then c.mergeAtBeginning d else c.mergeWith d)
    setChain into c
    setChain donor d
    return .list [describeChain c, describeChain d]
  | .set name value => do
    modify fun s => { s with world := s.world.set name value }
    return .null
  | .get name => do return .int ((← MonadState.get).world.get name)

/-- The answer of one step, and the trace it left. -/
structure Outcome where
  answer : Except StepError Json
  trace : List TraceEntry

def outcome (s : Step) (session : Session) : Outcome × Session :=
  let (answer, session) := (step s).run session
  (⟨answer, session.world.trace.toList⟩,
    { session with world := { session.world with trace := #[] } })

def Outcome.isCrash (o : Outcome) : Bool :=
  match o.answer with
  | .error (.halt (.crash _)) => true
  | _ => false

/-- Nothing follows a crash. -/
def outcomes (session : Session) : List Step → List Outcome
  | [] => []
  | s :: rest =>
    let (o, session) := outcome s session
    if o.isCrash then [o] else o :: outcomes session rest

end Session
end FrameChain.Scenario
