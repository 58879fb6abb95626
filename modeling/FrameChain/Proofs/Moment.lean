import FrameChain.Proofs.Journal
import Mathlib.Logic.Relation

set_option autoImplicit false

/-! A moment is a scene with its journal, the point that its update has reached, and the caller whose
callback is running, if any. A running callback may ask anything of the scene, any number of times, and
may answer or fail. So what every `Step` keeps holds inside callbacks too. -/
namespace FrameChain

/-- Where an update stands, with what it still has to do in the phase at hand. -/
inductive Phase (κ : Type) where
  /-- Between the operations of the host. -/
  | idle
  | attaching (batch : List ComponentId)
  /-- `init` of a component is called next, or is running. -/
  | initializing (id : ComponentId) (batch : List ComponentId)
  | initialized (id : ComponentId) (batch : List ComponentId)
  | joining (id : ComponentId) (batch : List ComponentId)
  | joined (id : ComponentId) (batch : List ComponentId)
  /-- Between two deliveries; `late` after the updates of the components. -/
  | dispatching (late : Bool)
  | serving (late : Bool) (m : Message) (rest : List Subscription)
  /-- The recipient accepted the message. -/
  | reaching (late : Bool) (m : Message) (recipient : Subscription) (rest : List Subscription)
  | updating (delta absolute : Seconds) (rest : List ComponentId)
  | ticking (delta absolute : Seconds) (id : ComponentId) (rest : List ComponentId)
  /-- Between two rounds of retirement. -/
  | settling
  | retiring (doomed : List EntityId) (rest : List ComponentId)
  /-- `finish` or `detach` is called next, or is running. -/
  | ending (slot : Slot κ) (doomed : List EntityId) (rest : List ComponentId)
  | removing (slot : Slot κ) (doomed : List EntityId) (rest : List ComponentId)
  | dropping (slot : Slot κ) (doomed : List EntityId) (rest : List ComponentId)

namespace Phase

variable {κ : Type}

def callee : Phase κ → Option (Callback × ComponentId)
  | initializing id _ => some (.init, id)
  | joining id _ => some (.attach, id)
  | reaching _ m recipient _ => some (.message m, recipient.component)
  | ticking delta absolute id _ => some (.update delta absolute, id)
  | ending slot _ _ => some (if slot.state = .finished then .finish else .detach, slot.id)
  | removing slot _ _ => some (.remove, slot.id)
  | _ => none

def next : Phase κ → Phase κ
  | initializing id batch => initialized id batch
  | joining id batch => joined id batch
  | reaching late m _ rest => serving late m rest
  | ticking delta absolute _ rest => updating delta absolute rest
  | ending slot doomed rest => removing slot doomed rest
  | removing slot doomed rest => dropping slot doomed rest
  | phase => phase

/-- What the scene does when the callback has failed, before the update ends. -/
def recover (s : Scene κ) : Phase κ → Scene κ
  | initializing id batch | joining id batch =>
      { (s.stop id .detached).2 with attachQueue := batch ++ (s.stop id .detached).2.attachQueue }
  | reaching _ m _ rest => { s with interrupted := some ⟨m, rest⟩ }
  | _ => s

def losses : Phase κ → Journal κ
  | ending _ doomed _ | removing _ doomed _ => [.forgotten doomed]
  | _ => []

end Phase

inductive Period where
  | attaching
  | delivering
  | updating
  | redelivering
  | retiring
deriving DecidableEq

def Phase.period? {κ : Type} : Phase κ → Option Period
  | idle => none
  | attaching _ | initializing .. | initialized .. | joining .. | joined .. => some .attaching
  | dispatching late | serving late .. | reaching late .. =>
      some (if late then .redelivering else .delivering)
  | updating .. | ticking .. => some .updating
  | settling | retiring .. | ending .. | removing .. | dropping .. => some .retiring

structure Moment (κ : Type) where
  phase : Phase κ
  calling : Option Caller
  scene : Scene κ
  journal : Journal κ

namespace Scene

variable {κ : Type}

def takeOut (s : Scene κ) (id : ComponentId) : Scene κ :=
  s.modifySlot id fun slot => { slot with component := none }

def putBack (s : Scene κ) (id : ComponentId) (component : κ) : Scene κ :=
  s.modifySlot id fun slot => { slot with component := some component }

def setState (s : Scene κ) (id : ComponentId) (state : Lifecycle) : Scene κ :=
  s.modifySlot id fun slot => { slot with state }

def detachDoomed (s : Scene κ) : Scene κ :=
  s.removalQueue.foldl detachComponents { s with removalQueue := [] }

end Scene

variable {κ : Type}

inductive Move (s : Scene κ) : Phase κ → Phase κ → Prop where
  | passOver {id batch} (h : s.lifecycle? id ≠ some .new) :
      Move s (.attaching (id :: batch)) (.attaching batch)
  /-- A callback has stopped the component meanwhile. -/
  | overtakenInit {id batch} (h : ∀ slot, s.slot? id = some slot → slot.state ≠ .new) :
      Move s (.initialized id batch) (.attaching batch)
  | overtakenAttach {id batch} (h : ∀ slot, s.slot? id = some slot → slot.state ≠ .initialized) :
      Move s (.joined id batch) (.attaching batch)
  | attached : Move s (.attaching []) (.dispatching false)
  | delivered {late m} : Move s (.serving late m []) (.dispatching late)
  | quiet {delta absolute} (h : s.nextDelivery? = none) :
      Move s (.dispatching false) (.updating delta absolute s.running)
  | tick {delta absolute id rest} (h : s.lifecycle? id = some .running) :
      Move s (.updating delta absolute (id :: rest)) (.ticking delta absolute id rest)
  | skip {delta absolute id rest} (h : s.lifecycle? id ≠ some .running) :
      Move s (.updating delta absolute (id :: rest)) (.updating delta absolute rest)
  | updated {delta absolute} : Move s (.updating delta absolute []) (.dispatching true)
  | quietAgain (h : s.nextDelivery? = none) : Move s (.dispatching true) .settling
  | settled (hdoomed : s.removalQueue = []) (hstopping : s.stopping = []) : Move s .settling .idle
  | unseen {id slot doomed rest} (h : s.slot? id = some slot) (hi : slot.initialized = false) :
      Move s (.retiring doomed (id :: rest)) (.dropping slot doomed rest)
  | endHook {id slot doomed rest} (h : s.slot? id = some slot) (hi : slot.initialized = true)
      (hstate : slot.state = .finished ∨ slot.state = .detached) :
      Move s (.retiring doomed (id :: rest)) (.ending slot doomed rest)

inductive Act (s : Scene κ) : Phase κ → Phase κ → Scene κ → Journal κ → Prop where
  | begin {absolute} :
      Act s .idle (.attaching s.attachQueue)
        { s with frame := s.frame + 1, absolute, attachQueue := [] } []
  | start {id batch} (h : s.lifecycle? id = some .new) :
      Act s (.attaching (id :: batch)) (.initializing id batch)
        (s.modifySlot id fun slot => { slot with initialized := true }) []
  | initialized {id batch slot} (h : s.slot? id = some slot) (hstate : slot.state = .new) :
      Act s (.initialized id batch) (.joining id batch) (s.setState id .initialized) []
  | run {id batch slot} (h : s.slot? id = some slot) (hstate : slot.state = .initialized) :
      Act s (.joined id batch) (.attaching batch)
        ((s.setState id .running).log (.componentAttached s.frame slot.owner id slot.name)) []
  | resume {late delivery} (h : s.interrupted = some delivery) :
      Act s (.dispatching late) (.serving late delivery.message delivery.recipients)
        { s with interrupted := none } []
  | take {late m bus} (h : s.interrupted = none) (hpop : s.bus.pop? = some (m, bus)) :
      Act s (.dispatching late) (.serving late m (s.bus.subscribers m.key)) { s with bus }
        [.taken s ⟨m, s.bus.subscribers m.key⟩]
  | serve {late m recipient rest} (h : s.accepts m recipient = true) :
      Act s (.serving late m (recipient :: rest)) (.reaching late m recipient rest) s
        [.served s m recipient]
  | pass {late m recipient rest} (h : s.accepts m recipient = false) :
      Act s (.serving late m (recipient :: rest)) (.serving late m rest) s
        [.passed s m recipient]
  | round : Act s .settling (.retiring s.removalQueue s.detachDoomed.stopping) s.detachDoomed []
  | drop {slot doomed rest} :
      Act s (.dropping slot doomed rest) (.retiring doomed rest) (s.dropSlot slot) []
  | clear {doomed} :
      Act s (.retiring doomed []) .settling (doomed.foldl Scene.removeIfEmpty s) []

variable [Named κ]

inductive Onward : Moment κ → Moment κ → Prop where
  | hosted {s j} (c : HostCall κ) :
      Onward ⟨.idle, none, s, j⟩ ⟨.idle, none, (c.apply s).2, j ++ [.hosted s c]⟩
  | move {p p' s j} (h : Move s p p') : Onward ⟨p, none, s, j⟩ ⟨p', none, s, j⟩
  | act {p p' s s' j marks} (h : Act s p p' s' marks) :
      Onward ⟨p, none, s, j⟩ ⟨p', none, s', j ++ marks⟩
  | call {p callback id s j slot} (hp : p.callee = some (callback, id)) (h : s.slot? id = some slot) :
      Onward ⟨p, none, s, j⟩
        ⟨p, some ⟨slot.owner, id⟩, s.takeOut id,
          j ++ [.called callback ⟨slot.owner, id⟩ (s.takeOut id)]⟩
  | ask {p self s j} (r : Request κ) :
      Onward ⟨p, some self, s, j⟩
        ⟨p, some self, (r.answer self s).2, j ++ [.asked self s r (r.answer self s).1]⟩
  | back {p self s j} (component : κ) :
      Onward ⟨p, some self, s, j⟩ ⟨p.next, none, s.putBack self.component component, j⟩

inductive Step : Moment κ → Moment κ → Prop where
  | onward {m m'} (h : Onward m m') : Step m m'
  /-- The running callback fails, which ends its update. -/
  | fail {p self s j} (component : κ) :
      Step ⟨p, some self, s, j⟩
        ⟨.idle, none, p.recover (s.putBack self.component component), j ++ p.losses⟩

abbrev Path : Moment κ → Moment κ → Prop := Relation.ReflTransGen Step

abbrev Stretch : Moment κ → Moment κ → Prop := Relation.ReflTransGen Onward

theorem Stretch.path {m m' : Moment κ} (h : Stretch m m') : Path m m' :=
  Relation.ReflTransGen.mono (fun _ _ => Step.onward) _ _ h

theorem Path.keeps {P : Moment κ → Prop} (hstep : ∀ m m', P m → Step m m' → P m')
    {m m' : Moment κ} (h : Path m m') (hm : P m) : P m' := by
  induction h with
  | refl => exact hm
  | tail _ hs ih => exact hstep _ _ ih hs

def Mark.scenes : Mark κ → List (Scene κ)
  | .hosted s c => [s, (c.apply s).2]
  | .asked self s r _ => [s, (r.answer self s).2]
  | .called _ _ s | .taken s _ | .served s _ _ | .passed s _ _ => [s]
  | .forgotten _ => []

theorem Step.journal {m m' : Moment κ} (hs : Step m m') :
    ∃ marks, m'.journal = m.journal ++ marks ∧
      ∀ mark ∈ marks, ∀ s ∈ mark.scenes, s = m.scene ∨ s = m'.scene := by
  have hnone : ∀ j : Journal κ, ∃ marks, j = j ++ marks ∧
      ∀ mark ∈ marks, ∀ s ∈ mark.scenes, s = m.scene ∨ s = m'.scene := fun j =>
    ⟨[], (List.append_nil j).symm, fun _ h => absurd h List.not_mem_nil⟩
  have hone : ∀ (j : Journal κ) (mark : Mark κ),
      (∀ s ∈ mark.scenes, s = m.scene ∨ s = m'.scene) →
      ∃ marks, j ++ [mark] = j ++ marks ∧
        ∀ mark ∈ marks, ∀ s ∈ mark.scenes, s = m.scene ∨ s = m'.scene := by
    intro j mark h
    refine ⟨[mark], rfl, fun x hx => ?_⟩
    rw [List.mem_singleton.1 hx]
    exact h
  cases hs with
  | onward ho =>
    cases ho with
    | hosted c => exact hone _ _ (by simp [Mark.scenes])
    | move => exact hnone _
    | act ha =>
      cases ha with
      | take | serve | pass => exact hone _ _ (by simp [Mark.scenes])
      | _ => exact ⟨[], rfl, fun _ h => absurd h List.not_mem_nil⟩
    | call => exact hone _ _ (by simp [Mark.scenes])
    | ask r => exact hone _ _ (by simp [Mark.scenes])
    | back => exact hnone _
  | @fail p self s j component =>
    cases p with
    | ending | removing => exact hone _ _ (by simp [Mark.scenes])
    | _ => exact ⟨[], rfl, fun _ h => absurd h List.not_mem_nil⟩

theorem Path.journal {m m' : Moment κ} (h : Path m m') : m.journal <+: m'.journal := by
  induction h with
  | refl => exact List.prefix_refl _
  | tail _ hs ih =>
    obtain ⟨marks, heq, -⟩ := hs.journal
    exact ih.trans ⟨marks, heq.symm⟩

end FrameChain
