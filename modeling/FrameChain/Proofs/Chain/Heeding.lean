import FrameChain.Proofs.Chain.Outcome
import FrameChain.Proofs.Moment.Course

set_option autoImplicit false

namespace FrameChain

open Chain ChainRun

variable {κ ω α τ υ : Type}

def Failure.isFinished : Failure → Bool
  | chainFinished _ => true
  | _ => false

variable [Named κ]

def Setting.Awake (self : Caller) (σ : Setting κ ω) : Prop := σ.scene.isDone self.component = false

section Scripts

variable (act : α → Caller → Script κ ω (Except Failure Unit)) (self : Caller)

/-- From this setting on the script begins a function or an action of the host only while its component has
not been stopped. If it does not crash it ends in `Q`. -/
inductive Script.Heeds (Q : τ → Setting κ ω → Prop) : Script κ ω τ → Setting κ ω → Prop
  | done {a : τ} {σ : Setting κ ω} (h : Q a σ) : Heeds Q (.done a) σ
  | crash (c : Crash) (σ : Setting κ ω) : Heeds Q (.crash c) σ
  | look {next : Scene κ → Script κ ω τ} {σ : Setting κ ω} (h : Heeds Q (next σ.scene) σ) :
      Heeds Q (.look next) σ
  | ask {r : Request κ} {next : r.Reply → Script κ ω τ} {σ : Setting κ ω}
      (h : Heeds Q (next (r.answer self σ.scene).1) ⟨(r.answer self σ.scene).2, σ.world⟩) :
      Heeds Q (.ask r next) σ
  | host {υ : Type} {f : HostFun ω υ} {next : υ → Script κ ω τ} {σ : Setting κ ω} (ha : σ.Awake self)
      (h : ∀ a, (f σ.world).1 = .ok a → Heeds Q (next a) ⟨σ.scene, (f σ.world).2⟩) :
      Heeds Q ((Script.host f).bind next) σ
  | action {action : α} {next : Except Failure Unit → Script κ ω τ} {σ : Setting κ ω}
      (ha : σ.Awake self)
      (h : ∀ answer σ', (act action self).run self σ = (.ok answer, σ') → Heeds Q (next answer) σ') :
      Heeds Q ((act action self).bind next) σ

/-- From this setting on the script only looks at the scene and asks it for changes. -/
inductive Script.Hushed : Script κ ω τ → Setting κ ω → Prop
  | done {a : τ} {σ : Setting κ ω} : Hushed (.done a) σ
  | crash {c : Crash} {σ : Setting κ ω} : Hushed (.crash c) σ
  | look {next : Scene κ → Script κ ω τ} {σ : Setting κ ω} (h : Hushed (next σ.scene) σ) :
      Hushed (.look next) σ
  | ask {r : Request κ} {next : r.Reply → Script κ ω τ} {σ : Setting κ ω}
      (h : Hushed (next (r.answer self σ.scene).1) ⟨(r.answer self σ.scene).2, σ.world⟩) :
      Hushed (.ask r next) σ

variable {act self} {Q : τ → Setting κ ω → Prop} {R : υ → Setting κ ω → Prop} {p : Script κ ω τ}
  {σ : Setting κ ω}

namespace Script.Heeds

theorem bind {f : τ → Script κ ω υ} (h : p.Heeds act self Q σ)
    (hf : ∀ a σ', Q a σ' → (f a).Heeds act self R σ') : (p.bind f).Heeds act self R σ := by
  induction h with
  | done h => exact hf _ _ h
  | crash c σ => exact .crash c σ
  | look _ ih => exact .look ih
  | ask _ ih => exact .ask ih
  | host ha _ ih =>
    rw [bind_assoc]
    exact .host ha ih
  | action ha _ ih =>
    rw [bind_assoc]
    exact .action ha ih

theorem imp {Q' : τ → Setting κ ω → Prop} (h : p.Heeds act self Q σ) (hq : ∀ a σ', Q a σ' → Q' a σ') :
    p.Heeds act self Q' σ := by
  rw [← p.bind_done]
  exact h.bind fun a σ' ha => .done (hq a σ' ha)

theorem ends {a : τ} {σ' : Setting κ ω} (h : p.Heeds act self Q σ) (hr : p.run self σ = (.ok a, σ')) :
    Q a σ' := by
  induction h with
  | done h =>
    cases hr
    exact h
  | crash => cases hr
  | look _ ih => exact ih hr
  | ask _ ih => exact ih hr
  | @host υ f next σ ha _ ih =>
    obtain ⟨b, σ₁, hf, hnext⟩ := Script.exists_of_bind hr
    rw [run_host] at hf
    obtain ⟨hb, rfl⟩ := Prod.mk.inj hf
    exact ih b hb hnext
  | action ha _ ih =>
    obtain ⟨answer, σ₁, hact, hnext⟩ := Script.exists_of_bind hr
    exact ih answer σ₁ hact hnext

theorem hushed (h : p.Heeds act self Q σ) (hi : σ.scene.wasIssued self.component = true)
    (hd : σ.scene.isDone self.component = true) : p.Hushed self σ := by
  induction h with
  | done => exact .done
  | crash => exact .crash
  | look _ ih => exact .look (ih hi hd)
  | @ask r next σ _ ih =>
    have hlater := (σ.scene.change_answer self r).advances
    exact .ask (ih (hlater.wasIssued hi) (hlater.forward.isDone hi hd))
  | host ha => exact absurd (ha.symm.trans hd) Bool.false_ne_true
  | action ha => exact absurd (ha.symm.trans hd) Bool.false_ne_true

end Script.Heeds

theorem Script.heeds_host {f : HostFun ω τ} (ha : σ.Awake self) (h : ∀ a, Q a ⟨σ.scene, (f σ.world).2⟩) :
    (Script.host f).Heeds act self Q σ := by
  rw [← (Script.host f).bind_done]
  exact .host ha fun a _ => .done (h a)

end Scripts

/-- How a callback leaves a chain: it has finished only if its component is stopped, and nothing but an action
says so. -/
structure Chain.Candid (act : α → Caller → Script κ ω (Except Failure Unit)) (caller : Caller)
    (answer : Except Failure τ) (c : Chain κ ω α) (σ : Setting κ ω) : Prop where
  ended : c.finished = true → σ.scene.isDone caller.component = true
  blamed : ∀ f, answer = .error f → f.isFinished = true → Blames act caller f c

theorem Chain.Candid.of_open {act : α → Caller → Script κ ω (Except Failure Unit)} {self : Caller}
    {answer : Except Failure τ} {c : Chain κ ω α} {σ : Setting κ ω} (hf : c.finished = false)
    (hfail : ∀ f, answer = .error f → f.isFinished = true → Blames act self f c) :
    c.Candid act self answer σ :=
  ⟨fun h => absurd (hf.symm.trans h) (by rintro ⟨⟩), hfail⟩

namespace ChainRun

variable {act : α → Caller → Script κ ω (Except Failure Unit)} {self : Caller} {P P' Q Q' : Setting κ ω → Prop}
  {R : Setting κ ω → Prop} {F : Failure → Prop}

/-- From a setting in `P` the run heeds a stop, and leaves alone whether its chain has finished. It ends in
`Q`, or with a failure in `F`. -/
def Heedful (act : α → Caller → Script κ ω (Except Failure Unit)) (self : Caller)
    (P Q : Setting κ ω → Prop) (F : Failure → Prop) (t : ChainRun κ ω α τ) : Prop :=
  ∀ c σ, P σ → (t.run c).Heeds act self
    (fun e σ' => e.2.finished = c.finished ∧ Ends (fun _ _ => Q σ') (fun f _ => F f) e.1 e.2) σ

def anywhere (_ : Setting κ ω) : Prop := True

def Early (f : Failure) : Prop := f.isFinished = false

section Rules

theorem Heedful.imp {t : ChainRun κ ω α τ} (h : Heedful act self P' Q' F t) (hp : ∀ σ, P σ → P' σ)
    (hq : ∀ σ, Q' σ → Q σ) : Heedful act self P Q F t := by
  refine fun c σ hσ => (h c σ (hp σ hσ)).imp ?_
  rintro ⟨answer, d⟩ σ' ⟨hd, hends⟩
  refine ⟨hd, ?_⟩
  cases answer with
  | ok a => exact hq σ' hends
  | error f => exact hends

theorem Heedful.last {t : ChainRun κ ω α τ} (h : Heedful act self P Q F t) :
    Heedful act self P anywhere F t :=
  h.imp (fun _ hp => hp) fun _ _ => trivial

theorem heedful_pure (a : τ) : Heedful act self P P F (pure a : ChainRun κ ω α τ) :=
  fun _ _ hp => .done ⟨rfl, hp⟩

theorem heedful_throw {f : Failure} (hf : F f) : Heedful act self P Q F (throw f : ChainRun κ ω α τ) :=
  fun _ _ _ => .done ⟨rfl, hf⟩

theorem Heedful.bind {t : ChainRun κ ω α τ} {f : τ → ChainRun κ ω α υ} (ht : Heedful act self P Q F t)
    (hf : ∀ a, Heedful act self Q R F (f a)) : Heedful act self P R F (t >>= f) := by
  intro c σ hp
  rw [run_bind]
  refine (ht c σ hp).bind ?_
  rintro ⟨answer, d⟩ σ' ⟨hd, hends⟩
  cases answer with
  | ok a => exact (hf a d σ' hends).imp fun e σ'' he => ⟨he.1.trans hd, he.2⟩
  | error g => exact .done ⟨hd, hends⟩

theorem heedful_chain {f : Chain κ ω α → ChainRun κ ω α τ} (hf : ∀ c, Heedful act self P Q F (f c)) :
    Heedful act self P Q F (chain >>= f) := fun c => hf c c

theorem heedful_modify {f : Chain κ ω α → Chain κ ω α} (hf : ∀ c, (f c).finished = c.finished) :
    Heedful act self P P F (modify f : ChainRun κ ω α Unit) :=
  fun c _ hp => .done ⟨hf c, hp⟩

theorem heedful_ite {p : Prop} [Decidable p] {t u : ChainRun κ ω α τ} (ht : Heedful act self P Q F t)
    (hu : Heedful act self P Q F u) : Heedful act self P Q F (if p then t else u) := by
  split
  · exact ht
  · exact hu

theorem heedful_script {p : Script κ ω τ}
    (h : ∀ σ, P σ → p.Heeds act self (fun _ σ' => Q σ') σ) :
    Heedful act self P Q F (script p : ChainRun κ ω α τ) := by
  intro c σ hp
  rw [run_script]
  exact (h σ hp).bind fun a σ' hq => .done ⟨rfl, hq⟩

theorem heedful_crash (crash : Crash) :
    Heedful act self P Q F (script (.crash crash) : ChainRun κ ω α τ) :=
  heedful_script fun σ _ => .crash crash σ

theorem heedful_scene : Heedful act self P P F (script .scene : ChainRun κ ω α (Scene κ)) :=
  heedful_script fun _ hp => .look (.done hp)

theorem heedful_host (f : HostFun ω τ) :
    Heedful act self (·.Awake self) (·.Awake self) F (script (.host f) : ChainRun κ ω α τ) :=
  heedful_script fun _ ha => Script.heeds_host ha fun _ => ha

theorem heedful_resolve (lazy : Lazy ω τ) : Heedful act self (·.Awake self) (·.Awake self) F
    (script lazy.resolve : ChainRun κ ω α (τ × Lazy ω τ)) := by
  refine heedful_script fun σ ha => ?_
  obtain ⟨param, cached⟩ := lazy
  cases cached with
  | some a => exact .done ha
  | none =>
    cases param with
    | value a => exact .done ha
    | producer f => exact .host ha fun _ _ => .done ha

theorem heedful_request (r : Request κ) :
    Heedful act self P anywhere F (script (.request r) : ChainRun κ ω α r.Reply) :=
  heedful_script fun _ _ => .ask (.done trivial)

theorem heedful_demand {p : Script κ ω (Except Failure τ)}
    (h : ∀ σ, P σ → p.Heeds act self (fun answer _ => ∀ f, answer = .error f → F f) σ) :
    Heedful act self P anywhere F (demand p : ChainRun κ ω α τ) := by
  intro c σ hp
  rw [run_demand]
  refine (h σ hp).bind fun answer σ' hfail => .done ⟨rfl, ?_⟩
  cases answer with
  | ok a => trivial
  | error f => exact hfail f rfl

end Rules

section Parts

theorem heedful_scratch : Heedful act self P P F (scratch : ChainRun κ ω α Scratch) :=
  heedful_chain fun _ => heedful_pure _

theorem heedful_modifyScratch (f : Scratch → Scratch) :
    Heedful act self P P F (modifyScratch f : ChainRun κ ω α Unit) :=
  heedful_modify fun _ => rfl

theorem heedful_node (id : NodeId) : Heedful act self P P F (node id : ChainRun κ ω α (Node κ ω α)) := by
  refine heedful_chain fun c => ?_
  cases c.nodes[id]? with
  | some n => exact heedful_pure n
  | none => exact heedful_crash _

theorem heedful_setCommand (id : NodeId) (command : Command κ ω α) :
    Heedful act self P P F (setCommand id command) := heedful_modify fun _ => rfl

theorem heedful_openScope (id : NodeId) :
    Heedful act self P P F (openScope id : ChainRun κ ω α Unit) := heedful_modify fun _ => rfl

theorem heedful_closeScope (closer : Opcode) :
    Heedful act self P P Early (closeScope closer : ChainRun κ ω α NodeId) := by
  intro c σ hp
  rw [closeScope, run_bind, run_chain, Script.bind]
  dsimp only
  cases c.scopes.pop? with
  | none => exact .done ⟨rfl, rfl⟩
  | some top => exact .done ⟨rfl, hp⟩

theorem heedful_mismatch (opener : Command κ ω α) (closer : Opcode) :
    Heedful act self P Q Early (mismatch opener closer : ChainRun κ ω α τ) :=
  heedful_chain fun _ => heedful_throw rfl

theorem heedful_unmatched (opcode : Opcode) :
    Heedful act self P Q Early (unmatched opcode : ChainRun κ ω α τ) :=
  heedful_chain fun _ => heedful_throw rfl

theorem heedful_consumed (opcode : Opcode) :
    Heedful act self P Q Early (consumed opcode : ChainRun κ ω α τ) :=
  heedful_chain fun _ => heedful_throw rfl

theorem heedful_resolveTarget (target : Option (Lazy ω EntityId)) :
    Heedful act self (·.Awake self) (·.Awake self) F (resolveTarget self target : ChainRun κ ω α _) := by
  cases target with
  | none => exact heedful_pure _
  | some target => exact (heedful_resolve _).bind fun _ => heedful_pure _

theorem heedful_waitStart (absolute : Seconds) :
    Heedful act self P P F (waitStart absolute : ChainRun κ ω α Seconds) :=
  heedful_scratch.bind fun _ => (heedful_modifyScratch _).bind fun _ => heedful_pure _

theorem heedful_isDone (id : ComponentId) :
    Heedful act self P P F (isDone id : ChainRun κ ω α Bool) :=
  heedful_scene.bind fun _ => heedful_pure _

theorem heedful_addComponent (owner : EntityId) (component : κ) : Heedful act self P anywhere Early
    (demand (.request (.addComponent owner component)) : ChainRun κ ω α ComponentId) := by
  refine heedful_demand fun σ _ => .ask (.done fun f hf => ?_)
  simp only [Request.answer, Scene.addComponent] at hf
  split at hf <;> cases hf
  rfl

theorem heedful_stop (id : ComponentId) (ending : Scene.Ending) : Heedful act self P anywhere Early
    (demand (.request (.stop id ending)) : ChainRun κ ω α Unit) := by
  refine heedful_demand fun σ _ => .ask (.done fun f hf => ?_)
  simp only [Request.answer, Scene.stop] at hf
  split at hf
  · cases hf
  · split at hf <;> cases hf
    rfl

theorem heedful_removeEntity (id : EntityId) : Heedful act self P anywhere Early
    (demand (.request (.removeEntity id)) : ChainRun κ ω α Unit) := by
  refine heedful_demand fun σ _ => .ask (.done fun f hf => ?_)
  simp only [Request.answer, Scene.removeEntity] at hf
  split at hf
  · cases hf
    rfl
  · split at hf <;> cases hf

theorem heedful_subscribe (key : String) (filter : Option Condition) : Heedful act self P anywhere Early
    (demand (.request (.subscribe key filter)) : ChainRun κ ω α Unit) := by
  refine heedful_demand fun σ _ => .ask (.done fun f hf => ?_)
  simp only [Request.answer, Scene.subscribe] at hf
  split at hf <;> cases hf
  rfl

theorem heedful_enlist (owner : EntityId) (members : List (Member κ)) :
    Heedful act self P anywhere Early (enlist owner members : ChainRun κ ω α (List ComponentId)) := by
  induction members generalizing P with
  | nil => exact (heedful_pure _).last
  | cons m rest ih =>
    cases m with
    | fresh component =>
      exact (heedful_addComponent _ _).bind fun _ => ih.bind fun _ => heedful_pure _
    | existing id => exact ih.bind fun _ => heedful_pure _

theorem heedful_finishEach (members : List ComponentId) :
    Heedful act self P anywhere Early (finishEach members : ChainRun κ ω α Unit) := by
  induction members generalizing P with
  | nil => exact (heedful_pure _).last
  | cons id rest ih =>
    exact (heedful_isDone id).bind fun _ => heedful_ite ((heedful_stop id _).bind fun _ => ih) ih

theorem heedful_removeEach (entities : List EntityId) :
    Heedful act self P anywhere Early (removeEach entities : ChainRun κ ω α Unit) := by
  induction entities generalizing P with
  | nil => exact (heedful_pure _).last
  | cons entity rest ih => exact (heedful_removeEntity entity).bind fun _ => ih

theorem heedful_awaited (id : NodeId) (set : MemberSet κ ω)
    (command : MemberSet κ ω → Command κ ω α) :
    Heedful act self (·.Awake self) anywhere Early (awaited self id set command) := by
  refine heedful_scratch.bind fun s => ?_
  cases s.awaited with
  | some ids => exact (heedful_pure _).last
  | none =>
    have hrest (members : List (Member κ)) : Heedful act self (·.Awake self) anywhere Early (do
        let ids ← enlist self.entity members
        modifyScratch fun s => { s with awaited := some ids }
        return ids : ChainRun κ ω α (List ComponentId)) :=
      (heedful_enlist _ _).bind fun _ => (heedful_modifyScratch _).bind fun _ => heedful_pure _
    cases set with
    | members list =>
      cases list with
      | none => exact (heedful_consumed _).bind hrest
      | some list => exact (heedful_setCommand id _).bind fun _ => hrest list
    | factory f => exact (heedful_host f).bind hrest

theorem heedful_produce (id : NodeId) (source : Source κ ω) (target : Option (Lazy ω EntityId)) :
    Heedful act self (·.Awake self) (·.Awake self) Early
      (produce id source target : ChainRun κ ω α κ) := by
  cases source with
  | single component =>
    cases component with
    | none => exact heedful_consumed _
    | some component => exact (heedful_setCommand _ _).bind fun _ => heedful_pure _
  | factory f => exact heedful_host f

theorem heedful_pick (entity : EntityId) (selector : Selector) :
    Heedful act self P P Early (pick entity selector : ChainRun κ ω α ComponentId) := by
  cases selector with
  | id component => exact heedful_pure _
  | name name =>
    refine heedful_scene.bind fun s => ?_
    cases s.findComponent? entity name with
    | none => exact heedful_throw rfl
    | some component => exact heedful_pure _

theorem heedful_endAwait (done : Bool) :
    Heedful act self P P F (endAwait done : ChainRun κ ω α Flow) :=
  heedful_ite ((heedful_modifyScratch _).bind fun _ => heedful_pure _) (heedful_pure _)

theorem heedful_awaitMessage (key : String) (filter : Option Condition) :
    Heedful act self P anywhere Early (awaitMessage key filter : ChainRun κ ω α Flow) := by
  refine heedful_scratch.bind fun s => heedful_ite ?_ (heedful_ite ?_ (heedful_pure _).last)
  · exact (heedful_subscribe key filter).bind fun _ =>
      (heedful_modifyScratch _).bind fun _ => heedful_pure _
  · exact (heedful_request (.unsubscribe key)).bind fun _ =>
      (heedful_modifyScratch _).bind fun _ => heedful_pure _

end Parts

section Commands

theorem heedful_openLoop (id : NodeId) : Heedful act self P P F (do
    openScope id
    return Flow.advance : ChainRun κ ω α Flow) :=
  (heedful_openScope id).bind fun _ => heedful_pure _

theorem heedful_jumpPast (target : Option NodeId) (opcode : Opcode) :
    Heedful act self P P Early (jumpPast target opcode : ChainRun κ ω α Flow) := by
  cases target with
  | none => exact heedful_unmatched opcode
  | some target => exact heedful_pure _

theorem heedful_closer (closer : Opcode) {goOn : NodeId → Node κ ω α → ChainRun κ ω α Flow}
    (h : ∀ opener n, Heedful act self P Q Early (goOn opener n)) : Heedful act self P Q Early (do
      let opener ← closeScope closer
      let n ← node opener
      goOn opener n) :=
  (heedful_closeScope closer).bind fun opener => (heedful_node opener).bind (h opener)

theorem heedful_openRepeat (id : NodeId) (times : Lazy ω UInt32) (infinite : Bool) :
    Heedful act self (·.Awake self) anywhere Early
      (openRepeat id times infinite : ChainRun κ ω α Flow) :=
  (heedful_resolve _).bind fun _ => (heedful_setCommand _ _).bind fun _ => (heedful_openLoop id).last

theorem heedful_closeRepeat :
    Heedful act self (·.Awake self) anywhere Early (closeRepeat : ChainRun κ ω α Flow) := by
  refine heedful_closer .endRepeat fun opener n => ?_
  cases n.command with
  | beginRepeat times infinite =>
    cases infinite with
    | true => exact (heedful_pure _).last
    | false =>
      refine (heedful_resolve _).bind fun _ => heedful_ite ?_ ?_
      · exact ((heedful_setCommand _ _).bind fun _ => heedful_pure _).last
      · exact ((heedful_setCommand _ _).bind fun _ => heedful_pure _).last
  | _ => exact heedful_mismatch _ _

theorem heedful_closeWhile :
    Heedful act self (·.Awake self) anywhere Early (closeWhile : ChainRun κ ω α Flow) := by
  refine heedful_closer .endWhile fun opener n => ?_
  cases n.command with
  | beginWhile holds =>
    exact (heedful_host _).bind fun _ => (heedful_ite (heedful_pure _) (heedful_pure _)).last
  | _ => exact heedful_mismatch _ _

theorem heedful_openInterval (absolute : Seconds) (id : NodeId) (seconds : Lazy ω Seconds) :
    Heedful act self (·.Awake self) anywhere Early
      (openInterval absolute id seconds : ChainRun κ ω α Flow) := by
  refine (heedful_resolve _).bind fun _ => (heedful_setCommand _ _).bind fun _ =>
    (heedful_waitStart _).bind fun _ => heedful_ite ?_ (heedful_pure _).last
  exact ((heedful_modifyScratch _).bind fun _ => heedful_openLoop id).last

theorem heedful_closeInterval :
    Heedful act self (·.Awake self) anywhere Early (closeInterval : ChainRun κ ω α Flow) := by
  refine heedful_closer .endInterval fun opener n => ?_
  cases n.command with
  | beginInterval seconds => exact (heedful_pure _).last
  | _ => exact heedful_mismatch _ _

theorem heedful_awaitTime (absolute : Seconds) (id : NodeId) (seconds : Lazy ω Seconds) :
    Heedful act self (·.Awake self) anywhere Early
      (awaitTime absolute id seconds : ChainRun κ ω α Flow) := by
  refine (heedful_resolve _).bind fun _ => (heedful_setCommand _ _).bind fun _ =>
    (heedful_waitStart _).bind fun _ => heedful_ite ?_ (heedful_pure _).last
  exact ((heedful_modifyScratch _).bind fun _ => heedful_pure _).last

theorem heedful_awaitFrames (id : NodeId) (frames : Lazy ω UInt32) :
    Heedful act self (·.Awake self) anywhere Early
      (awaitFrames id frames : ChainRun κ ω α Flow) := by
  refine (heedful_resolve _).bind fun _ => (heedful_setCommand _ _).bind fun _ =>
    heedful_scratch.bind fun s => ?_
  cases s.framesWaited with
  | none => exact ((heedful_modifyScratch _).bind fun _ => heedful_pure _).last
  | some waited =>
    refine heedful_ite ?_ ?_
    · exact ((heedful_modifyScratch _).bind fun _ => heedful_pure _).last
    · exact ((heedful_modifyScratch _).bind fun _ => heedful_pure _).last

theorem heedful_awaitMessageWhere (id : NodeId) (key : String) (condition : Lazy ω Condition) :
    Heedful act self (·.Awake self) anywhere Early
      (awaitMessageWhere id key condition : ChainRun κ ω α Flow) :=
  (heedful_resolve _).bind fun _ => (heedful_setCommand _ _).bind fun _ => heedful_awaitMessage key _

theorem heedful_awaitAll (id : NodeId) (set : MemberSet κ ω) :
    Heedful act self (·.Awake self) anywhere Early
      (awaitAll self id set : ChainRun κ ω α Flow) :=
  (heedful_awaited id set _).bind fun _ => heedful_scene.bind fun _ => heedful_endAwait _

theorem heedful_awaitFirst (id : NodeId) (set : MemberSet κ ω) :
    Heedful act self (·.Awake self) anywhere Early
      (awaitFirst self id set : ChainRun κ ω α Flow) := by
  refine (heedful_awaited id set _).bind fun members => heedful_scene.bind fun _ =>
    heedful_ite ?_ (heedful_endAwait _)
  exact (heedful_finishEach members).bind fun _ => heedful_endAwait _

theorem heedful_attach (id : NodeId) (source : Source κ ω) (target : Option (Lazy ω EntityId)) :
    Heedful act self (·.Awake self) anywhere Early
      (attach self id source target : ChainRun κ ω α Flow) :=
  (heedful_resolveTarget target).bind fun _ => (heedful_setCommand _ _).bind fun _ =>
    (heedful_produce id source _).bind fun _ => (heedful_addComponent _ _).bind fun _ => heedful_pure _

theorem heedful_detach (id : NodeId) (selector : Lazy ω Selector)
    (target : Option (Lazy ω EntityId)) :
    Heedful act self (·.Awake self) anywhere Early
      (detach self id selector target : ChainRun κ ω α Flow) :=
  (heedful_resolveTarget target).bind fun _ => (heedful_setCommand _ _).bind fun _ =>
    (heedful_resolve _).bind fun _ => (heedful_setCommand _ _).bind fun _ =>
      (heedful_pick _ _).bind fun _ => (heedful_stop _ _).bind fun _ => heedful_pure _

theorem heedful_removeWhere (id : NodeId) (condition : Lazy ω Condition) :
    Heedful act self (·.Awake self) anywhere Early
      (removeWhere id condition : ChainRun κ ω α Flow) :=
  (heedful_resolve _).bind fun _ => (heedful_setCommand _ _).bind fun _ =>
    heedful_scene.bind fun _ => (heedful_removeEach _).bind fun _ => heedful_pure _

theorem heedful_removeTarget (id : NodeId) (target : Option (Lazy ω EntityId)) :
    Heedful act self (·.Awake self) anywhere Early
      (removeTarget self id target : ChainRun κ ω α Flow) :=
  (heedful_resolveTarget target).bind fun _ => (heedful_setCommand _ _).bind fun _ =>
    (heedful_removeEntity _).bind fun _ => heedful_pure _

theorem heedful_send (id : NodeId) (key : String) (data : Lazy ω Json) :
    Heedful act self (·.Awake self) anywhere Early
      (send id key data : ChainRun κ ω α Flow) :=
  (heedful_resolve _).bind fun data => (heedful_setCommand _ _).bind fun _ =>
    (heedful_request (.send key data.1)).bind fun _ => heedful_pure _

/-- Every command but a call asks the host first and the scene last, and fails with nothing but failures of
its own. -/
theorem heedful_command (absolute : Seconds) {c : Chain κ ω α} {id : NodeId} {n : Node κ ω α}
    {σ : Setting κ ω} (hn : c.nodes[id]? = some n) (hcall : ∀ action, n.command ≠ .call action)
    (ha : σ.Awake self) :
    ((dispatch act self absolute id).run c).Heeds act self
      (fun e _ => e.2.finished = c.finished ∧ Ends (fun _ _ => True) (fun f _ => Early f) e.1 e.2) σ := by
  rw [dispatch, run_bind, run_node_of hn]
  refine (?_ : Heedful act self (·.Awake self) anywhere Early _) c σ ha
  cases hc : n.command with
  | beginRepeat times infinite => exact heedful_openRepeat id times infinite
  | endRepeat => exact heedful_closeRepeat
  | call action => exact absurd hc (hcall action)
  | beginWhile holds => exact (heedful_openLoop id).last
  | endWhile => exact heedful_closeWhile
  | beginInterval seconds => exact heedful_openInterval absolute id seconds
  | endInterval => exact heedful_closeInterval
  | beginIf holds =>
    exact (heedful_host _).bind fun _ => (heedful_ite (heedful_pure _) (heedful_jumpPast _ _)).last
  | otherwise => exact (heedful_jumpPast _ _).last
  | endIf => exact (heedful_pure _).last
  | waitTime seconds => exact heedful_awaitTime absolute id seconds
  | addComponent source target => exact heedful_attach id source target
  | waitForAll set => exact heedful_awaitAll id set
  | waitForFirst set => exact heedful_awaitFirst id set
  | waitUntil holds =>
    exact (heedful_host _).bind fun _ => (heedful_ite (heedful_pure _) (heedful_pure _)).last
  | waitFrames frames => exact heedful_awaitFrames id frames
  | waitForMessage key => exact heedful_awaitMessage key none
  | waitForMessageWhere key condition => exact heedful_awaitMessageWhere id key condition
  | removeComponent selector target => exact heedful_detach id selector target
  | removeEntitiesWhere condition => exact heedful_removeWhere id condition
  | removeEntity target => exact heedful_removeTarget id target
  | sendMessage key data => exact heedful_send id key data

/-- Whatever the command is: it says that its chain has finished only if it is a call and its action does. -/
theorem heeds_dispatch (absolute : Seconds) {c : Chain κ ω α} {id : NodeId} {n : Node κ ω α}
    {σ : Setting κ ω} (hcur : c.current = some id) (hn : c.nodes[id]? = some n) (ha : σ.Awake self) :
    ((dispatch act self absolute id).run c).Heeds act self (fun e _ => e.2.finished = c.finished ∧
      ∀ f, e.1 = .error f → f.isFinished = true → Blames act self f e.2) σ := by
  by_cases hcall : ∃ action, n.command = .call action
  · obtain ⟨action, hc⟩ := hcall
    have hrun : (dispatch act self absolute id).run c = (act action self).bind fun
        | .ok _ => .done (.ok .advance, c)
        | .error f => .done (.error f, c) := by
      rw [dispatch, run_bind, run_node_of hn]
      simp only [Script.bind, hc, run_bind, run_demand, Script.bind_assoc]
      congr 1
      funext answer
      cases answer <;> rfl
    rw [hrun]
    refine .action ha fun answer σ' hanswer => ?_
    cases answer with
    | ok _ => exact .done ⟨rfl, by rintro f ⟨⟩⟩
    | error f =>
      refine .done ⟨rfl, ?_⟩
      rintro _ ⟨⟩ -
      refine ⟨action, ?_, σ, σ', hanswer⟩
      rw [currentCommand?, hcur, Option.bind_some, hn, Option.map_some, hc]
  · refine (heedful_command absolute hn (fun action hc => hcall ⟨action, hc⟩) ha).imp ?_
    rintro ⟨answer, d⟩ σ' ⟨hd, hends⟩
    refine ⟨hd, ?_⟩
    rintro f rfl hf
    cases hends.symm.trans hf

theorem heedful_settle (id : NodeId) (flow : Flow) :
    Heedful act self P P F (settle id flow : ChainRun κ ω α Bool) := by
  have hleave : Heedful act self P P F (leave id : ChainRun κ ω α Unit) := heedful_modify fun _ => rfl
  have hafter (target : NodeId) : Heedful act self P P F (moveAfter target : ChainRun κ ω α Unit) :=
    (heedful_node target).bind fun _ => heedful_modify fun _ => rfl
  cases flow with
  | advance => exact hleave.bind fun _ => (hafter id).bind fun _ => heedful_pure _
  | jump target => exact (heedful_modify (by intro _; rfl)).bind fun _ => heedful_pure _
  | jumpPast target => exact hleave.bind fun _ => (hafter target).bind fun _ => heedful_pure _
  | suspend => exact heedful_pure _

theorem heeds_turn (absolute : Seconds) {c : Chain κ ω α} {id : NodeId} {σ : Setting κ ω}
    (hcur : c.current = some id) (ha : σ.Awake self) :
    ((turn act self absolute id).run c).Heeds act self (fun e _ => e.2.finished = c.finished ∧
      ∀ f, e.1 = .error f → f.isFinished = true → Blames act self f e.2) σ := by
  cases hn : c.nodes[id]? with
  | none =>
    rw [run_turn_dangling hn]
    exact .crash _ _
  | some n =>
    rw [turn, run_bind]
    refine (heeds_dispatch absolute hcur hn ha).bind ?_
    rintro ⟨answer, d⟩ σ' ⟨hd, hfail⟩
    cases answer with
    | error f =>
      refine .done ⟨hd, ?_⟩
      rintro _ ⟨⟩
      exact hfail f rfl
    | ok flow =>
      have hsettle : Heedful act self anywhere anywhere (fun _ => False) (settle id flow) :=
        heedful_settle id flow
      refine (hsettle d σ' trivial).imp ?_
      rintro ⟨answer, e⟩ σ'' ⟨he, hends⟩
      refine ⟨he.trans hd, ?_⟩
      rintro f rfl
      exact hends.elim

end Commands

section Rounds

theorem heedful_release
    (hp : ∀ σ key, P σ → P ⟨σ.scene.unsubscribe key self.component, σ.world⟩) :
    Heedful act self P P F (release : ChainRun κ ω α Unit) := by
  have hdrop : Heedful act self P P F (modify Chain.released : ChainRun κ ω α Unit) :=
    heedful_modify fun _ => rfl
  refine heedful_scratch.bind fun s => ?_
  cases s.messageKey with
  | none => exact hdrop
  | some key =>
    have hgive : Heedful act self P P F (script (.request (.unsubscribe key)) : ChainRun κ ω α Unit) :=
      heedful_script fun σ hσ => .ask (.done (hp σ key hσ))
    exact hgive.bind fun _ => hdrop

theorem heeds_complete (c : Chain κ ω α) (σ : Setting κ ω) :
    ((complete : ChainRun κ ω α Unit).run c).Heeds act self
    (fun e σ' => e.1 = .ok () ∧ σ'.scene.isDone self.component = true) σ := by
  rw [complete, run_bind]
  have hrelease : Heedful act self anywhere anywhere (fun _ => False)
      (release : ChainRun κ ω α Unit) := heedful_release fun _ _ _ => trivial
  refine (hrelease c σ trivial).bind ?_
  rintro ⟨answer, d⟩ σ' ⟨-, hends⟩
  cases answer with
  | error f => exact hends.elim
  | ok _ => exact .ask (.done ⟨rfl, Scene.isDone_markStopped _ _ _⟩)

theorem heeds_anyHolds (interrupts : List (HostFun ω Bool)) {σ : Setting κ ω} (ha : σ.Awake self) :
    (anyHolds interrupts : Script κ ω Bool).Heeds act self (fun _ σ' => σ'.Awake self) σ := by
  induction interrupts generalizing σ with
  | nil => exact .done ha
  | cons holds rest ih =>
    refine .host ha fun b _ => ?_
    cases b with
    | true => exact .done ha
    | false => exact ih ha

theorem heeds_round (absolute : Seconds) {c : Chain κ ω α} (hf : c.finished = false)
    (σ : Setting κ ω) : ((round act self absolute).run c).Heeds act self (fun e σ' =>
      e.2.Candid act self e.1 σ' ∧ (e.1 = .ok true → e.2.finished = false)) σ := by
  have hcomplete (σ : Setting κ ω) : ((do
      complete
      return false : ChainRun κ ω α Bool).run c).Heeds act self (fun e σ' =>
        e.2.Candid act self e.1 σ' ∧ (e.1 = .ok true → e.2.finished = false)) σ := by
    rw [run_bind]
    refine (heeds_complete c σ).bind ?_
    rintro ⟨answer, d⟩ σ' ⟨rfl, hdone⟩
    exact .done ⟨⟨fun _ => hdone, by rintro f ⟨⟩⟩, by rintro ⟨⟩⟩
  simp only [round, isDone, run_bind, run_script, Script.scene, Script.bind]
  refine .look ?_
  cases hs : σ.scene.isDone self.component with
  | true =>
    have hopen : c.Candid act self (.ok false : Except Failure Bool) σ :=
      .of_open hf (by rintro f ⟨⟩)
    exact .done ⟨hopen, fun _ => hf⟩
  | false =>
    simp only [run_pure, Script.bind, Bool.false_eq_true, if_false, run_bind, run_chain, run_script,
      Script.bind_assoc]
    refine (heeds_anyHolds c.interrupts hs).bind fun holds σ' ha => ?_
    cases holds with
    | true => exact hcomplete σ'
    | false =>
      simp only [Script.bind, Bool.false_eq_true, if_false, run_bind, run_chain]
      cases hcur : c.current with
      | none =>
        cases c.scopes.isEmpty with
        | true => exact hcomplete σ'
        | false =>
          refine .done ⟨.of_open hf ?_, by rintro ⟨⟩⟩
          rintro _ ⟨⟩ ⟨⟩
      | some id =>
        refine (heeds_turn absolute hcur ha).imp fun e σ'' he => ?_
        exact ⟨.of_open (he.1.trans hf) he.2, fun _ => he.1.trans hf⟩

theorem heeds_rounds (absolute : Seconds) (fuel : Nat) {c : Chain κ ω α} (hf : c.finished = false)
    (σ : Setting κ ω) : ((rounds act self absolute fuel).run c).Heeds act self
      (fun e σ' => e.2.Candid act self e.1 σ') σ := by
  induction fuel generalizing c σ with
  | zero => exact .crash _ _
  | succ fuel ih =>
    rw [rounds, run_bind]
    refine (heeds_round absolute hf σ).bind ?_
    rintro ⟨answer, d⟩ σ' ⟨hd, hon⟩
    cases answer with
    | error f => exact .done ⟨hd.ended, fun g hg => hd.blamed g (by rw [Except.error.inj hg])⟩
    | ok goesOn =>
      cases goesOn with
      | true => exact ih (hon rfl) σ'
      | false => exact .done ⟨hd.ended, by rintro f ⟨⟩⟩

end Rounds

end ChainRun

omit [Named κ] in
theorem Chain.opening_early {c : Chain κ ω α} (hf : c.finished = false) {f : Failure}
    (ho : c.opening = .error f) : f.isFinished = false := by
  obtain ⟨hfin, -⟩ | ⟨-, -, hr⟩ := opening_eq_error_iff.mp ho
  · cases hf.symm.trans hfin
  · obtain ⟨_, _, rfl⟩ := resolveJumps_error_iff.mp hr
    rfl

/-- Every callback of a chain heeds a stop. It is updated only while its component has not been stopped, and
told of its end only behind a stop. -/
theorem Chain.heeds_behaviour {act : α → Caller → Script κ ω (Except Failure Unit)} {self : Caller}
    {c : Chain κ ω α} {σ : Setting κ ω} (fuel : Nat) (callback : Callback)
    (hdue : ∀ delta absolute, callback = .update delta absolute → σ.Awake self)
    (hfarewell : callback = .finish ∨ callback = .detach → σ.scene.isDone self.component = true) :
    (Chain.behaviour act fuel callback self c).Heeds act self (fun e σ' =>
      (c.finished = true → σ.scene.isDone self.component = true) → e.2.Candid act self e.1 σ') σ := by
  have hsame (d : Chain κ ω α) (hd : d.finished = c.finished)
      (hend : c.finished = true → σ.scene.isDone self.component = true) :
      d.Candid act self (.ok () : Except Failure Unit) σ :=
    ⟨fun h => hend (hd.symm.trans h), by rintro f ⟨⟩⟩
  cases callback with
  | init | attach | remove => exact .done (hsame _ rfl)
  | update delta absolute =>
    have ha := hdue delta absolute rfl
    rw [Chain.behaviour, step, run_bind, Chain.run_start]
    cases hf : c.finished with
    | true =>
      rw [Chain.opening, if_pos hf]
      -- The component of a chain that has finished has stopped, and is not updated.
      exact .done fun hend => absurd (ha.symm.trans (hend rfl)) Bool.false_ne_true
    | false =>
      cases ho : c.opening with
      | error f =>
        refine .done fun _ => .of_open hf ?_
        rintro _ ⟨⟩ hg
        cases (Chain.opening_early hf ho).symm.trans hg
      | ok d => exact (heeds_rounds absolute fuel (live_opening ho).1.finished σ).imp fun _ _ h _ => h
  | message m =>
    have hnotice : Heedful act self (· = σ) (· = σ) (fun _ => False) (notice m : ChainRun κ ω α Unit) := by
      refine heedful_chain fun base => ?_
      cases base.current with
      | none => exact heedful_pure _
      | some id =>
        exact (heedful_node id).bind fun _ => heedful_ite (heedful_modifyScratch _) (heedful_pure _)
    refine (hnotice c σ rfl).imp ?_
    rintro ⟨answer, d⟩ σ' ⟨hd, hends⟩
    cases answer with
    | error f => exact hends.elim
    | ok _ =>
      obtain rfl : σ' = σ := hends
      exact hsame d hd
  | finish | detach =>
    have hdone : σ.scene.isDone self.component = true := hfarewell (by simp)
    have hrelease : Heedful act self (·.scene.isDone self.component = true)
        (·.scene.isDone self.component = true) (fun _ => False) (release : ChainRun κ ω α Unit) :=
      heedful_release fun _ _ h => h
    change ((shutDown : ChainRun κ ω α Unit).run c).Heeds act self _ σ
    rw [shutDown, run_bind]
    refine (hrelease c σ hdone).bind ?_
    rintro ⟨answer, d⟩ σ' ⟨-, hends⟩
    cases answer with
    | error f => exact hends.elim
    | ok _ => exact .done fun _ => ⟨fun _ => hends, by rintro f ⟨⟩⟩

end FrameChain
