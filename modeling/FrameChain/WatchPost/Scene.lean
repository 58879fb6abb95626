import FrameChain.Chain.Build
import FrameChain.Component
import FrameChain.Engine

set_option autoImplicit false

/-!
# A watch post

A small scene made of chains. A sentry reports a sighting every second, four times. An intruder reports
sightings at random intervals and leaves after five. A guard trusts the reports of sentries only, and
stands down after three of them or after ten seconds, whichever comes first.
-/
namespace FrameChain.WatchPost

/-- Finishes itself after some simulated time. -/
structure Timer where
  name : String
  seconds : Seconds
  started : Option Seconds := none

instance : Named Timer where
  name timer := timer.name

structure Tally where
  reports : Nat := 0
  sightings : Nat := 0
  /-- Where the intruder's pauses come from. -/
  noise : RandomStream

inductive Action where
  | countReport
  | confirmSighting
  | standDown
deriving DecidableEq, Repr

abbrev Part := Component Timer Tally Action

abbrev PartChain := Chain Part Tally Action

def Timer.respond (callback : Callback) (_ : Caller) (timer : Timer) :
    Script Part Tally (Except Failure Unit × Timer) := do
  match callback with
  | .update _ absolute =>
    let started := timer.started.getD absolute
    if absolute - started ≥ timer.seconds then Script.request .finish
    return (.ok (), { timer with started := some started })
  | _ => return (.ok (), timer)

def act (action : Action) (self : Caller) : Script Part Tally (Except Failure Unit) := do
  let tally ← Script.world
  match action with
  | .countReport => Script.setWorld { tally with reports := tally.reports + 1 }
  | .confirmSighting => Script.setWorld { tally with sightings := tally.sightings + 1 }
  | .standDown =>
    let _ ← Script.request (.patchEntity self.entity { state := some 1 })
  return .ok ()

def host : Host Timer Tally Action where
  respond := Timer.respond
  act := act

def pause : HostFun Tally Seconds := fun tally =>
  let (seconds, noise) := tally.noise.range 0.2 1.2
  (.ok seconds, { tally with noise })

def literal {τ : Type} (a : τ) : Lazy Tally τ := { param := .value a }

def sighting (source : String) : Command Part Tally Action :=
  .sendMessage "sighting" (literal (.object [("by", .text source)]))

def sentryChain : PartChain :=
  (([.beginInterval (literal 1.0), sighting "sentry-1", .call .countReport, .endInterval].foldl
    Chain.append { name := "sentry-watch" })).interruptIf fun tally =>
      (.ok (4 ≤ tally.reports), tally)

def intruderChain : PartChain :=
  [.beginRepeat (literal 5) false, .waitTime { param := .producer pause }, sighting "intruder",
    .endRepeat, .removeEntity none].foldl Chain.append { name := "intruder-noise" }

def sentries : Condition := Condition.any.withTag "sentry"

def confirmations : PartChain :=
  [.beginRepeat (literal 3) false, .waitForMessageWhere "sighting" (literal sentries),
    .call .confirmSighting, .endRepeat].foldl Chain.append { name := "confirmations" }

def guardChain : PartChain :=
  [.waitForFirst (.members (some [.fresh (.chain confirmations),
      .fresh (.custom { name := "shift-timeout", seconds := 10.0 })])),
    .sendMessage "all_clear" (literal (.object [])),
    .removeEntitiesWhere (literal sentries),
    .call .standDown].foldl Chain.append { name := "guard-duty" }

def spawn (name : String) (tag : Option String) (s : Scene Part) : EntityId × Scene Part :=
  let (id, s) := s.addEntity name
  (id, (s.patchEntity id { tag := some tag }).2)

def start (config : Config) : Engine.Run Part Tally :=
  let engine : Engine Part := .new config
  let (sentry, s) := spawn "sentry-1" (some "sentry") engine.scene
  let (intruder, s) := spawn "intruder" none s
  let (guard, s) := spawn "guard" (some "guard") s
  let s := (s.addComponent sentry (.chain sentryChain)).2
  let s := (s.addComponent intruder (.chain intruderChain)).2
  let s := (s.addComponent guard (.chain guardChain)).2
  { engine := { engine with scene := s }, world := { noise := engine.randomFor intruder } }

end FrameChain.WatchPost
