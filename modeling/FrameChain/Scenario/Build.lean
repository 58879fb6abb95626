import FrameChain.Chain.Build
import FrameChain.Component
import FrameChain.Scenario.World

set_option autoImplicit false

/-!
# Building components

A plan is built into a component whose sequences and random streams have places of their own in the
world. Factories build again each time they are called.
-/
namespace FrameChain.Scenario

structure Probe where
  name : String
  /-- Updates left until it finishes itself. -/
  lifetime : Option Nat
  logs : Bool
  hooks : List (Hook × List Act)

instance : Named Probe where
  name probe := probe.name

abbrev Part := Component Probe World (List Act)

abbrev PartChain := Chain Part World (List Act)

def ParamPlan.buildOption {τ : Type} (p : Option (ParamPlan τ)) (w : World) :
    Option (Lazy World τ) × World :=
  match p with
  | none => (none, w)
  | some p =>
    let (param, w) := p.build w
    (some param, w)

/-- The list of a factory's next call, traced, with its members built. -/
def nextMembers (place : Nat) (builders : List (World → List (Member Part) × World))
    (label : Option String) : World → Except Crash (List (Member Part)) × World := fun w =>
  match World.step place builders w with
  | (.error c, w) => (.error c, w)
  | (.ok build, w) =>
    let (members, w) := build (w.noteIf label .null)
    (.ok members, w)

mutual

def buildComponent (p : ComponentPlan) (w : World) : Part × World :=
  match p with
  | .chain name commands =>
    let (c, w) := appendAll { name } commands w
    (.chain c, w)
  | .probe name lifetime logs hooks => (.custom { name, lifetime, logs, hooks }, w)
  | .stepper name times forward chainName commands =>
    let (chain, w) := appendAll { name := chainName } commands w
    (.driver { name, times, forward, chain }, w)

def appendAll (c : PartChain) (commands : List CommandPlan) (w : World) : PartChain × World :=
  match commands with
  | [] => (c, w)
  | p :: rest =>
    let (c, w) := appendOne c p w
    appendAll c rest w

def appendOne (c : PartChain) (p : CommandPlan) (w : World) : PartChain × World :=
  match p with
  | .beginRepeat times =>
    let (times, w) := times.build w
    (c.append (.beginRepeat times false), w)
  | .endRepeat => (c.append .endRepeat, w)
  | .beginWhile holds =>
    let (holds, w) := holds.build w
    (c.append (.beginWhile holds), w)
  | .endWhile => (c.append .endWhile, w)
  | .beginInterval seconds =>
    let (seconds, w) := seconds.build w
    (c.append (.beginInterval seconds), w)
  | .endInterval => (c.append .endInterval, w)
  | .beginIf holds =>
    let (holds, w) := holds.build w
    (c.append (.beginIf holds), w)
  | .otherwise => (c.append .otherwise, w)
  | .endIf => (c.append .endIf, w)
  | .interruptIf holds =>
    let (holds, w) := holds.build w
    (c.interruptIf holds, w)
  | .call acts => (c.append (.call acts), w)
  | .waitTime seconds =>
    let (seconds, w) := seconds.build w
    (c.append (.waitTime seconds), w)
  | .waitFrames frames =>
    let (frames, w) := frames.build w
    (c.append (.waitFrames frames), w)
  | .waitUntil holds =>
    let (holds, w) := holds.build w
    (c.append (.waitUntil holds), w)
  | .waitForMessage key => (c.append (.waitForMessage key), w)
  | .waitForMessageWhere key condition =>
    let (condition, w) := condition.build w
    (c.append (.waitForMessageWhere key condition), w)
  | .waitForAll members =>
    let (members, w) := buildMembers members w
    (c.append (.waitForAll (.members (some members))), w)
  | .waitForAllOf lists label =>
    let builders := memberBuilders lists
    let (place, w) := w.newPosition
    (c.append (.waitForAll (.factory (nextMembers place builders label))), w)
  | .waitForFirst members =>
    let (members, w) := buildMembers members w
    (c.append (.waitForFirst (.members (some members))), w)
  | .waitForFirstOf lists label =>
    let builders := memberBuilders lists
    let (place, w) := w.newPosition
    (c.append (.waitForFirst (.factory (nextMembers place builders label))), w)
  | .addComponent component true target =>
    let (target, w) := ParamPlan.buildOption target w
    let source : Source Part World := .factory fun w =>
      let (built, w) := buildComponent component w
      (.ok built, w)
    (c.append (.addComponent source target), w)
  | .addComponent component false target =>
    let (target, w) := ParamPlan.buildOption target w
    let (built, w) := buildComponent component w
    (c.append (.addComponent (.single (some built)) target), w)
  | .removeComponent selector target =>
    let (target, w) := ParamPlan.buildOption target w
    let (selector, w) := selector.build w
    (c.append (.removeComponent selector target), w)
  | .removeEntity target =>
    let (target, w) := ParamPlan.buildOption target w
    (c.append (.removeEntity target), w)
  | .removeEntitiesWhere condition =>
    let (condition, w) := condition.build w
    (c.append (.removeEntitiesWhere condition), w)
  | .sendMessage key data =>
    let (data, w) := data.build w
    (c.append (.sendMessage key data), w)

def buildMembers (members : List MemberPlan) (w : World) : List (Member Part) × World :=
  match members with
  | [] => ([], w)
  | .fresh component :: rest =>
    let (component, w) := buildComponent component w
    let (members, w) := buildMembers rest w
    (.fresh component :: members, w)
  | .existing id :: rest =>
    let (members, w) := buildMembers rest w
    (.existing id :: members, w)

def memberBuilders (lists : List (List MemberPlan)) : List (World → List (Member Part) × World) :=
  match lists with
  | [] => []
  | members :: rest => (fun w => buildMembers members w) :: memberBuilders rest

end

end FrameChain.Scenario
