import FrameChain.Behaviour

set_option autoImplicit false

/-!
# Turns

A turn is a part of a scene's update. It changes the scene and the host's world, and what it did up to
a failure stays done.
-/
namespace FrameChain

inductive Halt where
  | failure (f : Failure)
  | crash (c : Crash)
deriving DecidableEq, Repr

abbrev Turn (κ ω τ : Type) := ExceptT Halt (StateM (Setting κ ω)) τ

namespace Turn

variable {κ ω τ : Type}

def scene : Turn κ ω (Scene κ) := do return (← get).scene

def modifyScene (f : Scene κ → Scene κ) : Turn κ ω Unit :=
  modify fun σ => { σ with scene := f σ.scene }

def fail (f : Failure) : Turn κ ω τ := throw (.failure f)

def crash (c : Crash) : Turn κ ω τ := throw (.crash c)

/-- An operation of the scene, with its failure as the turn's. -/
def perform (f : Scene κ → Except Failure τ × Scene κ) : Turn κ ω τ := do
  let (answer, scene) := f (← scene)
  modifyScene fun _ => scene
  match answer with
  | .ok a => return a
  | .error f => fail f

/-- Makes a failure a value; a crash goes through. -/
def attempt (t : Turn κ ω τ) : Turn κ ω (Except Failure τ) := ExceptT.mk do
  match ← t.run with
  | .ok a => return .ok (.ok a)
  | .error (.failure f) => return .ok (.error f)
  | .error (.crash c) => return .error (.crash c)

def script [Named κ] (self : Caller) (p : Script κ ω τ) : Turn κ ω τ := ExceptT.mk fun σ =>
  match p.run self σ with
  | (.ok a, σ) => (.ok a, σ)
  | (.error c, σ) => (.error (.crash c), σ)

/-- Calls a component: it leaves its slot, answers, and goes back into its slot. -/
def call [Named κ] (b : Behaviour κ ω) (callback : Callback) (id : ComponentId) :
    Turn κ ω Unit := do
  match (← scene).slot? id with
  | none => return
  | some slot =>
    match slot.component with
    | none => fail (.componentBusy id)
    | some component =>
      let self : Caller := ⟨slot.owner, id⟩
      modifyScene fun s => s.modifySlot id fun slot => { slot with component := none }
      let (outcome, component) ← script self (b callback self component)
      modifyScene fun s => s.modifySlot id fun slot => { slot with component := some component }
      match outcome with
      | .ok () => return
      | .error f => fail f

end Turn
end FrameChain
