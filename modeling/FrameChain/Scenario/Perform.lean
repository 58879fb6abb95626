import FrameChain.Document.Condition
import FrameChain.Document.Message
import FrameChain.Document.Snapshot
import FrameChain.Scenario.Build

set_option autoImplicit false

/-!
# Performing acts

What the acts of a plan do in a callback, and how probes answer theirs.
-/
namespace FrameChain.Scenario

abbrev Performance (τ : Type) := ExceptT Failure (Script Part World) τ

namespace Performance

def script {τ : Type} (p : Script Part World τ) : Performance τ := ExceptT.lift p

def demand {τ : Type} (p : Script Part World (Except Failure τ)) : Performance τ := ExceptT.mk p

def scene : Performance (Scene Part) := script .scene

def world : Performance World := script .world

def setWorld (w : World) : Performance Unit := script (.setWorld w)

def note (label : String) (value : TraceValue) : Performance Unit := do
  setWorld ((← world).note label value)

def noteJson (label : String) (j : Json) : Performance Unit := note label (.json j)

end Performance

open Performance

/-- The command under the cursor of a chain component, unless that chain itself is running. -/
def peek (s : Scene Part) (id : ComponentId) : Json :=
  match s.component? id with
  | some (.chain c) => .option (fun opcode => .text opcode.text) c.currentOpcode?
  | _ => .text "none"

mutual

def perform (self : Caller) (act : Act) : Performance Unit :=
  match act with
  | .mk false deed => performDeed self deed
  | .mk true deed => do
    match ← script (performDeed self deed).run with
    | .ok () => return
    | .error f => note deed.name (.failure f)

def performAll (self : Caller) (acts : List Act) : Performance Unit :=
  match acts with
  | [] => return
  | act :: rest => do
    perform self act
    performAll self rest

def performDeed (self : Caller) (deed : Deed) : Performance Unit :=
  match deed with
  | .log text => do noteJson text (.nat (← scene).frame)
  | .set name value => do setWorld ((← world).set name value)
  | .add name value => do
    let w ← world
    setWorld (w.set name (w.get name + value))
  | .when condition acts => do
    let (holds, w) := condition.build (← world)
    setWorld w
    if ← script (.host holds) then performAll self acts
  | .finish => script (.request .finish)
  | .fail message => throw (.other message)
  | .readCondition text =>
    match Condition.shape.readText Condition.ofJson text with
    | .ok _ => return
    | .error fault => throw (.unreadable fault)
  | .send key data => script (.request (.send key data))
  | .subscribe key filter => demand (.request (.subscribe key filter))
  | .unsubscribe key => script (.request (.unsubscribe key))
  | .removeComponent id => demand (.request (.stop id .detached))
  | .finishComponent id => demand (.request (.stop id .finished))
  | .removeEntity id => demand (.request (.removeEntity id))
  | .attach component entity => do
    let (component, w) := buildComponent component (← world)
    setWorld w
    let id ← demand (.request (.addComponent (entity.getD self.entity) component))
    noteJson deed.name id.toJson
  | .who => do
    let s ← scene
    noteJson deed.name
      (.list [self.entity.toJson, self.component.toJson, .nat s.frame, .float s.absolute])
  | .isFinishing => do noteJson deed.name (.bool ((← scene).isDone self.component))
  | .state id => do noteJson deed.name (.option Lifecycle.toJson ((← scene).lifecycle? id))
  | .isDone id => do noteJson deed.name (.bool ((← scene).isDone id))
  | .find entity name => do
    noteJson deed.name (.option ComponentId.toJson ((← scene).findComponent? entity name))
  | .findWhere condition => do
    noteJson deed.name (.list (((← scene).findEntities condition).map EntityId.toJson))
  | .patchEntity entity patch => do
    let known ← script (.request (.patchEntity (entity.getD self.entity) patch))
    noteJson deed.name (.bool known)
  | .peek id => do noteJson deed.name (peek (← scene) id)

end

/-- The hook of a callback, and what a log says about it. -/
def hookOf : Callback → Hook × Json
  | .init => (.init, .null)
  | .attach => (.attach, .null)
  | .update delta absolute => (.update, .list [.float delta, .float absolute])
  | .message m => (.message, m.toJson)
  | .finish => (.finish, .null)
  | .detach => (.detach, .null)
  | .remove => (.remove, .null)

/-- Counts an update against the lifetime. True if the probe is at its end. -/
def Probe.age (probe : Probe) : Bool × Probe :=
  match probe.lifetime with
  | none => (false, probe)
  | some left => (left ≤ 1, { probe with lifetime := some (left - 1) })

def Probe.respond (callback : Callback) (self : Caller) (probe : Probe) :
    Script Part World (Except Failure Unit × Probe) := do
  let (hook, extra) := hookOf callback
  if probe.logs then
    let frame := (← Script.scene).frame
    let entry : Json := .list [.nat frame, extra]
    Script.setWorld ((← Script.world).note (probe.name ++ "." ++ hook.text) (.json entry))
  match ← (performAll self ((probe.hooks.lookup hook).getD [])).run with
  | .error f => return (.error f, probe)
  | .ok () =>
    if hook = .update then
      let (ended, probe) := probe.age
      if ended then Script.request .finish
      return (.ok (), probe)
    else return (.ok (), probe)

def host : Host Probe World (List Act) where
  respond := Probe.respond
  act acts self := performAll self acts

end FrameChain.Scenario
