import FrameChain.Scene.Basic

set_option autoImplicit false

/-!
# Callback scripts

A script is what one callback does: it looks at the scene, asks the scene for changes, and reads and
writes the world of the host, one interaction after the other, each next one depending on the answers
so far. Every script ends, so a statement about all scripts is a statement about every behaviour of
callbacks that return. `run_bind` says that running is compositional.
-/
namespace FrameChain

/-- The component whose callback runs, and its entity. -/
structure Caller where
  entity : EntityId
  component : ComponentId
deriving DecidableEq, Repr

inductive Request (κ : Type) where
  /-- Finish the calling component. -/
  | finish
  | addComponent (owner : EntityId) (component : κ)
  | stop (id : ComponentId) (ending : Scene.Ending)
  | patchEntity (id : EntityId) (patch : EntityPatch)
  | removeEntity (id : EntityId)
  /-- Send with the caller's entity as origin. -/
  | send (key : String) (data : Json)
  /-- Subscribe the calling component. -/
  | subscribe (key : String) (filter : Option Condition)
  | unsubscribe (key : String)

namespace Request

variable {κ : Type}

@[reducible] def Reply : Request κ → Type
  | finish | send .. | unsubscribe .. => Unit
  | addComponent .. => Except Failure ComponentId
  | stop .. | removeEntity .. | subscribe .. => Except Failure Unit
  | patchEntity .. => Bool

def answer [Named κ] (self : Caller) (s : Scene κ) : (r : Request κ) → r.Reply × Scene κ
  | finish => ((), s.markStopped self.component .finished)
  | addComponent owner component => s.addComponent owner component
  | stop id ending => s.stop id ending
  | patchEntity id patch => s.patchEntity id patch
  | removeEntity id => s.removeEntity id
  | send key data => ((), s.sendMessage key data (some self.entity))
  | subscribe key filter => s.subscribe key self.component filter
  | unsubscribe key => ((), s.unsubscribe key self.component)

end Request

/-- Scripts over components `κ` and a host world `ω` that end with a value in `τ`. -/
inductive Script (κ ω τ : Type) where
  | done (a : τ)
  | crash (c : Crash)
  | look (next : Scene κ → Script κ ω τ)
  | ask (r : Request κ) (next : r.Reply → Script κ ω τ)
  | consult (next : ω → Script κ ω τ)
  | store (w : ω) (next : Script κ ω τ)

structure Setting (κ ω : Type) where
  scene : Scene κ
  world : ω

/-- A function of the host: it may change the host's world, and may crash. -/
abbrev HostFun (ω τ : Type) := ω → Except Crash τ × ω

namespace Script

variable {κ ω τ υ : Type}

def bind : Script κ ω τ → (τ → Script κ ω υ) → Script κ ω υ
  | done a, f => f a
  | crash c, _ => crash c
  | look next, f => look fun s => (next s).bind f
  | ask r next, f => ask r fun a => (next a).bind f
  | consult next, f => consult fun w => (next w).bind f
  | store w next, f => store w (next.bind f)

instance : Monad (Script κ ω) where
  pure := done
  bind := bind

def scene : Script κ ω (Scene κ) := look done

def request (r : Request κ) : Script κ ω r.Reply := ask r done

def world : Script κ ω ω := consult done

def setWorld (w : ω) : Script κ ω Unit := store w (done ())

def host (f : HostFun ω τ) : Script κ ω τ :=
  consult fun w =>
    match f w with
    | (.ok a, w) => store w (done a)
    | (.error c, w) => store w (crash c)

def run [Named κ] (self : Caller) : Script κ ω τ → Setting κ ω → Except Crash τ × Setting κ ω
  | done a, σ => (.ok a, σ)
  | crash c, σ => (.error c, σ)
  | look next, σ => (next σ.scene).run self σ
  | ask r next, σ =>
      let (a, scene) := r.answer self σ.scene
      (next a).run self { σ with scene }
  | consult next, σ => (next σ.world).run self σ
  | store w next, σ => next.run self { σ with world := w }

@[simp] theorem run_scene [Named κ] (self : Caller) (σ : Setting κ ω) :
    (scene : Script κ ω (Scene κ)).run self σ = (.ok σ.scene, σ) := rfl

@[simp] theorem run_request [Named κ] (self : Caller) (r : Request κ) (σ : Setting κ ω) :
    (request r : Script κ ω r.Reply).run self σ =
      (.ok (r.answer self σ.scene).1, { σ with scene := (r.answer self σ.scene).2 }) := rfl

/-- A host function changes the world even where it crashes. -/
@[simp] theorem run_host [Named κ] (self : Caller) (f : HostFun ω τ) (σ : Setting κ ω) :
    (host f : Script κ ω τ).run self σ = ((f σ.world).1, { σ with world := (f σ.world).2 }) := by
  simp only [host, run]
  split <;> rename_i h <;> simp [run, h]

@[simp] theorem pure_eq (a : τ) : (pure a : Script κ ω τ) = done a := rfl

@[simp] theorem bind_eq (p : Script κ ω τ) (f : τ → Script κ ω υ) : p >>= f = p.bind f := rfl

theorem bind_done (p : Script κ ω τ) : p.bind done = p := by
  induction p with
  | done a => rfl
  | crash c => rfl
  | look next ih => simp only [bind, ih]
  | ask r next ih => simp only [bind, ih]
  | consult next ih => simp only [bind, ih]
  | store w next ih => simp only [bind, ih]

theorem bind_assoc {φ : Type} (p : Script κ ω τ) (f : τ → Script κ ω υ) (g : υ → Script κ ω φ) :
    (p.bind f).bind g = p.bind fun a => (f a).bind g := by
  induction p with
  | done a => rfl
  | crash c => rfl
  | look next ih => simp only [bind, ih]
  | ask r next ih => simp only [bind, ih]
  | consult next ih => simp only [bind, ih]
  | store w next ih => simp only [bind, ih]

instance : LawfulMonad (Script κ ω) :=
  LawfulMonad.mk' _ (fun p => bind_done p) (fun _ _ => rfl) (fun p f g => bind_assoc p f g)

theorem run_bind [Named κ] (self : Caller) (p : Script κ ω τ) (f : τ → Script κ ω υ)
    (σ : Setting κ ω) :
    (p.bind f).run self σ =
      match p.run self σ with
      | (.ok a, σ) => (f a).run self σ
      | (.error c, σ) => (.error c, σ) := by
  induction p generalizing σ with
  | done a => rfl
  | crash c => rfl
  | look next ih => exact ih _ _
  | ask r next ih => exact ih _ _
  | consult next ih => exact ih _ _
  | store w next ih => exact ih _

end Script
end FrameChain
