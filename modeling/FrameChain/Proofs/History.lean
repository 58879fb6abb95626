import FrameChain.Scene.Update

set_option autoImplicit false

namespace FrameChain

/-- What a host may ask of a scene between updates. -/
inductive HostCall (κ : Type) where
  | addEntity (name : String)
  | patchEntity (id : EntityId) (patch : EntityPatch)
  | removeEntity (id : EntityId)
  | addComponent (owner : EntityId) (component : κ)
  | stop (id : ComponentId) (ending : Scene.Ending)
  | send (key : String) (data : Json) (origin : Option EntityId)
  | subscribe (key : String) (component : ComponentId) (filter : Option Condition)
  | unsubscribe (key : String) (component : ComponentId)
  | drainEvents
  /-- Change a component in its slot. -/
  | editComponent (id : ComponentId) (f : κ → κ)

def HostCall.apply {κ : Type} [Named κ] (s : Scene κ) : HostCall κ → Except Failure Unit × Scene κ
  | addEntity name => (.ok (), (s.addEntity name).2)
  | patchEntity id patch => (.ok (), (s.patchEntity id patch).2)
  | removeEntity id => s.removeEntity id
  | addComponent owner component =>
      ((s.addComponent owner component).1.map fun _ => (), (s.addComponent owner component).2)
  | stop id ending => s.stop id ending
  | send key data origin => (.ok (), s.sendMessage key data origin)
  | subscribe key component filter => s.subscribe key component filter
  | unsubscribe key component => (.ok (), s.unsubscribe key component)
  | drainEvents => (.ok (), s.drainEvents.2)
  | editComponent id f =>
      (.ok (), s.modifySlot id fun slot => { slot with component := slot.component.map f })

inductive HostOp (κ ω : Type) where
  | call (c : HostCall κ)
  | edit (f : ω → ω)
  | update (fuel : Nat) (delta absolute : Seconds)

variable {κ ω : Type} [Named κ]

def HostOp.perform (b : Behaviour κ ω) : HostOp κ ω → Turn κ ω Unit
  | call c => Turn.perform fun s => c.apply s
  | edit f => modify fun σ => { σ with world := f σ.world }
  | update fuel delta absolute => Scene.update b fuel delta absolute

def history (b : Behaviour κ ω) : List (HostOp κ ω) → Turn κ ω Unit
  | [] => return
  | op :: rest => do
    let _ ← Turn.attempt (op.perform b)
    history b rest

structure Probe where

instance : Named Probe := ⟨fun _ => "probe"⟩

end FrameChain
