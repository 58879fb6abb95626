import FrameChain.Config
import FrameChain.Random
import FrameChain.Scene.Update

set_option autoImplicit false

/-!
# The engine

A clock that drives one scene: each tick advances the clock, updates the scene by the frame's time, and
hands out the events of the frame.
-/
namespace FrameChain

structure Engine (κ : Type) where
  clock : Clock
  scene : Scene κ := {}
  config : Config

namespace Engine

variable {κ ω τ : Type}

def new (config : Config) : Engine κ :=
  { clock := { step := config.step, speed := config.speed }, config }

def randomFor (engine : Engine κ) (entity : EntityId) : RandomStream :=
  .ofEntity engine.config.seed entity

structure Run (κ ω : Type) where
  engine : Engine κ
  world : ω

abbrev Drive (κ ω τ : Type) := ExceptT Halt (StateM (Run κ ω)) τ

def turn (t : Turn κ ω τ) : Drive κ ω τ := ExceptT.mk fun run =>
  let (outcome, σ) := t.run ⟨run.engine.scene, run.world⟩
  (outcome, { engine := { run.engine with scene := σ.scene }, world := σ.world })

def drain : Drive κ ω (List Event) := ExceptT.mk fun run =>
  let (events, scene) := run.engine.scene.drainEvents
  (.ok events, { run with engine := { run.engine with scene } })

/-- Runs one frame. After a failure the events stay in the scene's log. -/
def tick [Named κ] (b : Behaviour κ ω) (fuel : Nat) : Drive κ ω (List Event) := do
  let clock := (← get).engine.clock
  if clock.paused then throw (.crash (.broken .tickWhileRunning))
  match clock.advance with
  | .error broken => throw (.crash (.broken broken))
  | .ok (time, clock) =>
    modify fun run => { run with engine := { run.engine with clock } }
    turn (Scene.update b fuel time.delta time.absolute)
    drain

/-- A failure loses the events of the frames before it. -/
def runFrames [Named κ] (b : Behaviour κ ω) (fuel : Nat) : Nat → Drive κ ω (List Event)
  | 0 => return []
  | n + 1 => do
    let events ← tick b fuel
    return events ++ (← runFrames b fuel n)

/-- At most `max` frames, up to the first that leaves nothing to run; the number of frames run. -/
def runUntilIdle [Named κ] (b : Behaviour κ ω) (fuel : Nat) : Nat → Drive κ ω Nat
  | 0 => return 0
  | max + 1 => do
    let _ ← tick b fuel
    if (← get).engine.scene.isIdle then return 1
    return 1 + (← runUntilIdle b fuel max)

end Engine
end FrameChain
