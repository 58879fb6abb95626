import FrameChain.Proofs.Chain.Nesting
import FrameChain.Proofs.Chain.Triple

set_option autoImplicit false

namespace FrameChain

variable {κ ω α τ υ : Type}

def Failure.isScope : Failure → Bool
  | emptyScope .. | scopeMismatch .. | unterminatedScope .. => true
  | _ => false

/-- What no run changes about a command: which one it is, and the action of a call. -/
def Command.fixed : Command κ ω α → Opcode × Option α
  | call action => (.call, some action)
  | command => (command.opcode, none)

theorem Command.opcode_eq_fixed (command : Command κ ω α) : command.opcode = command.fixed.1 := by
  cases command <;> rfl

theorem Command.fixed_reset (command : Command κ ω α) : command.reset.fixed = command.fixed := by
  cases command <;> rfl

theorem Command.eq_call {command : Command κ ω α} {action : α}
    (h : command.fixed = (call action : Command κ ω α).fixed) : command = .call action := by
  cases command <;> cases h
  rfl

structure Place (α : Type) where
  command : Opcode × Option α
  next : Option NodeId
  previous : Option NodeId

def Node.place (n : Node κ ω α) : Place α := ⟨n.command.fixed, n.next, n.previous⟩

namespace Chain

def layout (c : Chain κ ω α) : Array (Place α) := c.nodes.map Node.place

def jumps (c : Chain κ ω α) : Array (Option NodeId) := c.nodes.map Node.jump

def fixed? (c : Chain κ ω α) (id : NodeId) : Option (Opcode × Option α) :=
  c.nodes[id]?.map (·.command.fixed)

theorem fixed?_of_node {c : Chain κ ω α} {id : NodeId} {n : Node κ ω α} {command : Command κ ω α}
    (hn : c.nodes[id]? = some n) (h : command.fixed = n.command.fixed) :
    c.fixed? id = some command.fixed := by
  rw [fixed?, hn, h]
  rfl

theorem fixed?_eq_layout (c : Chain κ ω α) (id : NodeId) :
    c.fixed? id = c.layout[id]?.map (·.command) := by
  simp only [fixed?, layout, Array.getElem?_map, Option.map_map]
  rfl

theorem opcode?_eq_fixed? (c : Chain κ ω α) (id : NodeId) : c.opcode? id = (c.fixed? id).map (·.1) := by
  simp only [opcode?, fixed?, Option.map_map, Command.opcode_eq_fixed]
  rfl

theorem layout_modifyNode (c : Chain κ ω α) (id : NodeId) {f : Node κ ω α → Node κ ω α}
    (hf : ∀ n, c.nodes[id]? = some n → (f n).place = n.place) :
    (c.modifyNode id f).layout = c.layout := by
  refine Array.ext_getElem? fun i => ?_
  simp only [layout, modifyNode, Array.getElem?_map, Array.getElem?_modify]
  split
  · rename_i h
    subst h
    cases hn : c.nodes[id]? with
    | none => rfl
    | some n => exact congrArg some (hf n hn)
  · rfl

theorem jumps_modifyNode (c : Chain κ ω α) (id : NodeId) {f : Node κ ω α → Node κ ω α}
    (hf : ∀ n, (f n).jump = n.jump) : (c.modifyNode id f).jumps = c.jumps := by
  refine Array.ext_getElem? fun i => ?_
  simp only [jumps, modifyNode, Array.getElem?_map, Array.getElem?_modify]
  split
  · rw [Option.map_map]
    exact congrArg (Option.map · c.nodes[i]?) (funext hf)
  · rfl

/-- A chain without what its commands and waits remember and without its scopes. -/
def frame (c : Chain κ ω α) : Chain κ ω α := { c with nodes := #[], scopes := {}, scratch := {} }

/-- Chains that differ at most in what they remember and in their open loops. -/
structure Alike (c c' : Chain κ ω α) : Prop where
  layout : c'.layout = c.layout
  jumps : c'.jumps = c.jumps
  frame : c'.frame = c.frame

namespace Alike

variable {c c' c'' : Chain κ ω α}

theorem refl (c : Chain κ ω α) : Alike c c := ⟨rfl, rfl, rfl⟩

theorem trans (h : Alike c c') (h' : Alike c' c'') : Alike c c'' :=
  ⟨h'.layout.trans h.layout, h'.jumps.trans h.jumps, h'.frame.trans h.frame⟩

theorem read (h : Alike c c') (f : Chain κ ω α → τ) : f c'.frame = f c.frame := congrArg f h.frame

theorem current (h : Alike c c') : c'.current = c.current := h.read Chain.current

theorem head (h : Alike c c') : c'.head = c.head := h.read Chain.head

theorem started (h : Alike c c') : c'.started = c.started := h.read Chain.started

theorem finished (h : Alike c c') : c'.finished = c.finished := h.read Chain.finished

theorem jumpsStale (h : Alike c c') : c'.jumpsStale = c.jumpsStale :=
  h.read Chain.jumpsStale

theorem fixed? (h : Alike c c') (id : NodeId) : c'.fixed? id = c.fixed? id := by
  rw [fixed?_eq_layout, fixed?_eq_layout, h.layout]

theorem scopes (c : Chain κ ω α) (scopes : Scopes) : Alike c { c with scopes } := ⟨rfl, rfl, rfl⟩

theorem setCommand (c : Chain κ ω α) {id : NodeId} {command : Command κ ω α}
    (h : c.fixed? id = some command.fixed) :
    Alike c (c.modifyNode id fun node => { node with command }) where
  layout := by
    refine layout_modifyNode c id fun n hn => ?_
    rw [Chain.fixed?, hn] at h
    simp only [Node.place, Option.some.inj h]
  jumps := jumps_modifyNode c id fun _ => rfl
  frame := rfl

end Alike

def Calm (base c : Chain κ ω α) : Prop := Alike base c ∧ c.scopes = base.scopes

theorem Calm.refl (c : Chain κ ω α) : Calm c c := ⟨.refl c, rfl⟩

end Chain

namespace ChainRun

open Chain

variable [Named κ] {self : Caller} {base : Chain κ ω α}

/-- The run leaves the open loops alone, with a value in `Q` or a failure in `F`. -/
def Quiet (self : Caller) (base : Chain κ ω α) (t : ChainRun κ ω α τ) (Q : τ → Prop)
    (F : Failure → Prop) : Prop :=
  Triple self (Calm base) t (fun a c => Calm base c ∧ Q a) fun f c => Calm base c ∧ F f

def anything (_ : τ) : Prop := True

section Quiet

variable {Q : τ → Prop} {R : υ → Prop} {F : Failure → Prop}

theorem Quiet.bind {t : ChainRun κ ω α τ} {f : τ → ChainRun κ ω α υ} (ht : Quiet self base t Q F)
    (hf : ∀ a, Q a → Quiet self base (f a) R F) : Quiet self base (t >>= f) R F :=
  triple_bind ht fun a c answer c' hc hr => hf a hc.2 c answer c' hc.1 hr

theorem quiet_pure {a : τ} (h : Q a) : Quiet self base (pure a) Q F :=
  triple_pure fun _ hc => ⟨hc, h⟩

theorem quiet_throw {f : Failure} (h : F f) : Quiet self base (throw f : ChainRun κ ω α τ) Q F :=
  triple_throw fun _ hc => ⟨hc, h⟩

theorem quiet_script (p : Script κ ω τ) : Quiet self base (script p) anything F :=
  triple_script fun _ _ hc => ⟨hc, trivial⟩

theorem quiet_demand {p : Script κ ω (Except Failure τ)}
    (h : ∀ f, p.Answers self (.error f) → F f) : Quiet self base (demand p) anything F :=
  triple_demand (fun _ _ hc => ⟨hc, trivial⟩) fun f _ hc hp => ⟨hc, h f hp⟩

theorem quiet_chain : Quiet self base (chain : ChainRun κ ω α _) anything F := by
  rintro c _ _ hc ⟨σ, σ', hr⟩
  cases hr
  exact ⟨hc, trivial⟩

theorem quiet_scratch : Quiet self base (scratch : ChainRun κ ω α _) anything F :=
  quiet_chain.bind fun _ _ => quiet_pure trivial

theorem quiet_modifyScratch (f : Scratch → Scratch) :
    Quiet self base (modifyScratch f : ChainRun κ ω α Unit) anything F :=
  triple_modify fun _ hc => ⟨⟨⟨hc.1.layout, hc.1.jumps, hc.1.frame⟩, hc.2⟩, trivial⟩

theorem quiet_setCommand {id : NodeId} (command : Command κ ω α)
    (h : base.fixed? id = some command.fixed) :
    Quiet self base (setCommand id command) anything F :=
  triple_modify fun c hc =>
    ⟨⟨hc.1.trans (.setCommand c (by rw [hc.1.fixed?, h])), hc.2⟩, trivial⟩

theorem quiet_ite {p : Prop} [Decidable p] {t u : ChainRun κ ω α τ} (ht : Quiet self base t Q F)
    (hu : Quiet self base u Q F) : Quiet self base (if p then t else u) Q F :=
  triple_ite (fun _ => ht) fun _ => hu

theorem answers_request {r : Request κ} {a : r.Reply}
    (h : (Script.request r : Script κ ω r.Reply).Answers self a) : ∃ s, (r.answer self s).1 = a := by
  obtain ⟨σ, σ', hr⟩ := h
  rw [Script.run_request] at hr
  exact ⟨σ.scene, Except.ok.inj (congrArg Prod.fst hr)⟩

def Mild (f : Failure) : Prop := f.isScope = false

theorem quiet_resolveTarget (target : Option (Lazy ω EntityId)) :
    Quiet self base (resolveTarget self target : ChainRun κ ω α _) anything F := by
  cases target with
  | none => exact quiet_pure trivial
  | some target => exact (quiet_script _).bind fun _ _ => quiet_pure trivial

theorem quiet_waitStart (absolute : Seconds) :
    Quiet self base (waitStart absolute : ChainRun κ ω α _) anything F :=
  quiet_scratch.bind fun _ _ => (quiet_modifyScratch _).bind fun _ _ => quiet_pure trivial

theorem quiet_consumed (opcode : Opcode) :
    Quiet self base (consumed opcode : ChainRun κ ω α τ) anything Mild :=
  quiet_chain.bind fun _ _ => quiet_throw rfl

theorem quiet_unmatched (opcode : Opcode) :
    Quiet self base (unmatched opcode : ChainRun κ ω α τ) Q Mild :=
  quiet_chain.bind fun _ _ => quiet_throw rfl

theorem quiet_isDone (id : ComponentId) :
    Quiet self base (isDone id : ChainRun κ ω α _) anything F :=
  (quiet_script _).bind fun _ _ => quiet_pure trivial

theorem quiet_addComponent (owner : EntityId) (component : κ) :
    Quiet self base (demand (.request (.addComponent owner component)) : ChainRun κ ω α _)
      anything Mild := by
  refine quiet_demand ?_
  intro f hf
  obtain ⟨s, hr⟩ := answers_request (r := .addComponent owner component) hf
  simp only [Request.answer, Scene.addComponent] at hr
  split at hr
  · cases hr
    rfl
  · cases hr

theorem quiet_stop (id : ComponentId) (ending : Scene.Ending) :
    Quiet self base (demand (.request (.stop id ending)) : ChainRun κ ω α _) anything Mild := by
  refine quiet_demand ?_
  intro f hf
  obtain ⟨s, hr⟩ := answers_request (r := .stop id ending) hf
  simp only [Request.answer, Scene.stop] at hr
  split at hr
  · cases hr
  · split at hr
    · cases hr
    · cases hr
      rfl

theorem quiet_removeEntity (id : EntityId) :
    Quiet self base (demand (.request (.removeEntity id)) : ChainRun κ ω α _) anything Mild := by
  refine quiet_demand ?_
  intro f hf
  obtain ⟨s, hr⟩ := answers_request (r := .removeEntity id) hf
  simp only [Request.answer, Scene.removeEntity] at hr
  split at hr
  · cases hr
    rfl
  · split at hr <;> cases hr

theorem quiet_subscribe (key : String) (filter : Option Condition) :
    Quiet self base (demand (.request (.subscribe key filter)) : ChainRun κ ω α _) anything Mild := by
  refine quiet_demand ?_
  intro f hf
  obtain ⟨s, hr⟩ := answers_request (r := .subscribe key filter) hf
  simp only [Request.answer, Scene.subscribe] at hr
  split at hr
  · cases hr
    rfl
  · cases hr

theorem quiet_enlist (owner : EntityId) (members : List (Member κ)) :
    Quiet self base (enlist owner members : ChainRun κ ω α _) anything Mild := by
  induction members with
  | nil => exact quiet_pure trivial
  | cons m rest ih =>
    cases m with
    | fresh component =>
      exact (quiet_addComponent owner component).bind fun _ _ => ih.bind fun _ _ => quiet_pure trivial
    | existing id => exact ih.bind fun _ _ => quiet_pure trivial

theorem quiet_finishEach (ids : List ComponentId) :
    Quiet self base (finishEach ids : ChainRun κ ω α Unit) anything Mild := by
  induction ids with
  | nil => exact quiet_pure trivial
  | cons id rest ih =>
    refine (quiet_isDone id).bind fun done _ => quiet_ite ?_ ?_
    · exact (quiet_stop id .finished).bind fun _ _ => ih
    · exact ih

theorem quiet_removeEach (ids : List EntityId) :
    Quiet self base (removeEach ids : ChainRun κ ω α Unit) anything Mild := by
  induction ids with
  | nil => exact quiet_pure trivial
  | cons id rest ih => exact (quiet_removeEntity id).bind fun _ _ => ih

def Onward (flow : Flow) : Prop := flow = .advance ∨ flow = .suspend

theorem quiet_endAwait (done : Bool) :
    Quiet self base (endAwait done : ChainRun κ ω α _) Onward F :=
  quiet_ite ((quiet_modifyScratch _).bind fun _ _ => quiet_pure (.inl rfl)) (quiet_pure (.inr rfl))

theorem quiet_awaitMessage (key : String) (filter : Option Condition) :
    Quiet self base (awaitMessage key filter : ChainRun κ ω α _) Onward Mild := by
  refine quiet_scratch.bind fun s _ => quiet_ite ?_ (quiet_ite ?_ ?_)
  · exact (quiet_subscribe key filter).bind fun _ _ =>
      (quiet_modifyScratch _).bind fun _ _ => quiet_pure (.inr rfl)
  · exact (quiet_script _).bind fun _ _ =>
      (quiet_modifyScratch _).bind fun _ _ => quiet_pure (.inl rfl)
  · exact quiet_pure (.inr rfl)

theorem quiet_awaited {id : NodeId} {set : MemberSet κ ω} {command : MemberSet κ ω → Command κ ω α}
    (h : ∀ set, base.fixed? id = some (command set).fixed) :
    Quiet self base (awaited self id set command) anything Mild := by
  refine quiet_scratch.bind fun s _ => ?_
  cases s.awaited with
  | some ids => exact quiet_pure trivial
  | none =>
    have hrest (members : List (Member κ)) : Quiet self base (do
        let ids ← enlist self.entity members
        modifyScratch fun s => { s with awaited := some ids }
        return ids) anything Mild :=
      (quiet_enlist self.entity members).bind fun _ _ =>
        (quiet_modifyScratch _).bind fun _ _ => quiet_pure trivial
    cases set with
    | members list =>
      cases list with
      | none => exact (quiet_consumed _).bind fun members _ => hrest members
      | some list => exact (quiet_setCommand _ (h _)).bind fun _ _ => hrest list
    | factory f => exact (quiet_script _).bind fun members _ => hrest members

theorem quiet_produce {id : NodeId} (source : Source κ ω) (target : Option (Lazy ω EntityId))
    (h : base.fixed? id = some (Command.addComponent source target : Command κ ω α).fixed) :
    Quiet self base (produce id source target) anything Mild := by
  cases source with
  | single component =>
    cases component with
    | none => exact quiet_consumed _
    | some component =>
      exact (quiet_setCommand (.addComponent (.single none) target) h).bind fun _ _ => quiet_pure trivial
  | factory f => exact quiet_script _

theorem quiet_pick (entity : EntityId) (selector : Selector) :
    Quiet self base (pick entity selector) anything Mild := by
  cases selector with
  | id component => exact quiet_pure trivial
  | name name =>
    refine (quiet_script _).bind fun s _ => ?_
    cases s.findComponent? entity name with
    | none => exact quiet_throw rfl
    | some component => exact quiet_pure trivial

end Quiet

/-- How a command that does not fail leaves the stack of open loops. -/
inductive Steers (base : Chain κ ω α) (here : Node κ ω α) (id : NodeId) :
    Flow → Chain κ ω α → Prop
  | advance {c : Chain κ ω α}
      (h : c.scopes.entries = here.command.opcode.track id base.scopes.entries) :
      Steers base here id .advance c
  | suspend {c : Chain κ ω α} (h : c.scopes = base.scopes) : Steers base here id .suspend c
  | past {c : Chain κ ω α} {target : NodeId} (hb : here.command.opcode.kind = .branch)
      (hj : here.jump = some target) (h : c.scopes = base.scopes) :
      Steers base here id (.jumpPast target) c
  | back {c : Chain κ ω α} {opener : NodeId} {code : Opcode} (hc : base.opcode? opener = some code)
      (hk : code.closer? = some here.command.opcode)
      (h : base.scopes.entries = opener :: c.scopes.entries) : Steers base here id (.jump opener) c

/-- What stops a command, and the stack of open loops it leaves. Only a closer fails because of the
loops, and an action may fail with anything. -/
inductive Breaks (act : α → Caller → Script κ ω (Except Failure Unit)) (self : Caller)
    (base : Chain κ ω α) (here : Node κ ω α) : Failure → Chain κ ω α → Prop
  | mild {f : Failure} {c : Chain κ ω α} (hf : Mild f) (h : c.scopes = base.scopes) :
      Breaks act self base here f c
  | raised {f : Failure} {c : Chain κ ω α} {action : α} (ha : here.command = .call action)
      (hf : (act action self).Answers self (.error f)) (h : c.scopes = base.scopes) :
      Breaks act self base here f c
  | empty {c : Chain κ ω α} (hc : here.command.opcode.kind = .closer)
      (he : base.scopes.entries = []) (h : c.scopes = base.scopes) :
      Breaks act self base here (.emptyScope base.name here.command.opcode) c
  | mismatch {c : Chain κ ω α} {opener : NodeId} {code : Opcode}
      (hc : here.command.opcode.kind = .closer) (ho : base.opcode? opener = some code)
      (hk : code.closer? ≠ some here.command.opcode)
      (h : base.scopes.entries = opener :: c.scopes.entries) :
      Breaks act self base here (.scopeMismatch base.name code here.command.opcode) c

def Dispatched (act : α → Caller → Script κ ω (Except Failure Unit)) (self : Caller)
    (base : Chain κ ω α) (here : Node κ ω α) (id : NodeId) (t : ChainRun κ ω α Flow) : Prop :=
  Triple self (· = base) t (fun flow c => Alike base c ∧ Steers base here id flow c)
    fun f c => Alike base c ∧ Breaks act self base here f c

variable {act : α → Caller → Script κ ω (Except Failure Unit)} {here : Node κ ω α} {id : NodeId}

theorem triple_node {c : Chain κ ω α} {id : NodeId} {f : Node κ ω α → ChainRun κ ω α υ}
    {R : υ → Chain κ ω α → Prop} {E : Failure → Chain κ ω α → Prop}
    (h : ∀ n, c.nodes[id]? = some n → Triple self (· = c) (f n) R E) :
    Triple self (· = c) (node id >>= f) R E := by
  refine triple_bind (Q := fun n c' => c.nodes[id]? = some n ∧ c' = c) ?_ fun n => ?_
  · refine triple_chain fun base hb => ?_
    subst hb
    cases hn : base.nodes[id]? with
    | none => exact triple_crash
    | some n => exact triple_pure fun c hc => ⟨rfl, hc⟩
  · rintro c' answer c'' ⟨hn, rfl⟩ hr
    exact h n hn c' answer c'' rfl hr

theorem triple_at {c : Chain κ ω α} {id : NodeId} {here : Node κ ω α}
    {f : Node κ ω α → ChainRun κ ω α υ} {R : υ → Chain κ ω α → Prop}
    {E : Failure → Chain κ ω α → Prop} (hn : c.nodes[id]? = some here)
    (h : Triple self (· = c) (f here) R E) : Triple self (· = c) (node id >>= f) R E := by
  refine triple_node fun n hn' => ?_
  obtain rfl : here = n := Option.some.inj (hn.symm.trans hn')
  exact h

theorem Triple.ofCalm {t : ChainRun κ ω α τ} {Q : τ → Chain κ ω α → Prop}
    {E : Failure → Chain κ ω α → Prop} (h : Triple self (Calm base) t Q E) :
    Triple self (· = base) t Q E :=
  h.weaken fun _ hc => hc ▸ .refl base

theorem Quiet.errand {t : ChainRun κ ω α Flow} (ht : Quiet self base t Onward Mild)
    (hp : here.command.opcode.kind = .plain) : Dispatched act self base here id t := by
  refine Triple.imp ht (fun c hc => hc ▸ .refl base) ?_ fun f c hc => ⟨hc.1.1, .mild hc.2 hc.1.2⟩
  rintro _ c ⟨⟨ha, hs⟩, rfl | rfl⟩
  · exact ⟨ha, .advance (by rw [hs, Opcode.track_plain _ _ hp])⟩
  · exact ⟨ha, .suspend hs⟩

theorem dispatched_call {action : α} (hc : here.command = .call action) :
    Dispatched act self base here id (do
      demand (act action self)
      return .advance) := by
  have ht : Quiet self base (do
      demand (act action self)
      return Flow.advance) (· = .advance) fun f => (act action self).Answers self (.error f) :=
    (quiet_demand fun _ hf => hf).bind fun _ _ => quiet_pure rfl
  refine Triple.imp ht (fun c hc => hc ▸ .refl base) ?_ fun f c hf => ?_
  · rintro _ c ⟨⟨ha, hs⟩, rfl⟩
    exact ⟨ha, .advance (by rw [hs, hc]; rfl)⟩
  · exact ⟨hf.1.1, .raised hc hf.2 hf.1.2⟩

def Branching (here : Node κ ω α) (flow : Flow) : Prop :=
  flow = .advance ∨ ∃ target, here.jump = some target ∧ flow = .jumpPast target

theorem Quiet.branch {t : ChainRun κ ω α Flow} (ht : Quiet self base t (Branching here) Mild)
    (hb : here.command.opcode.kind = .branch) : Dispatched act self base here id t := by
  refine Triple.imp ht (fun c hc => hc ▸ .refl base) ?_ fun f c hc => ⟨hc.1.1, .mild hc.2 hc.1.2⟩
  rintro _ c ⟨⟨ha, hs⟩, rfl | ⟨target, hj, rfl⟩⟩
  · exact ⟨ha, .advance (by rw [hs, Opcode.track_branch _ _ hb])⟩
  · exact ⟨ha, .past hb hj hs⟩

theorem quiet_jumpPast (opcode : Opcode) :
    Quiet self base (jumpPast here.jump opcode) (Branching here) Mild := by
  unfold jumpPast
  cases hj : here.jump with
  | none => exact quiet_unmatched opcode
  | some target => exact quiet_pure (.inr ⟨target, hj, rfl⟩)

theorem Quiet.lead {t : ChainRun κ ω α τ} {f : τ → ChainRun κ ω α υ} {R : υ → Chain κ ω α → Prop}
    {E : Failure → Chain κ ω α → Prop} (ht : Quiet self base t anything fun _ => False)
    (hf : ∀ a, Triple self (Calm base) (f a) R E) : Triple self (Calm base) (t >>= f) R E :=
  triple_bind (ht.imp (fun _ hc => hc) (fun _ _ hc => hc.1) fun _ _ hc => hc.2.elim) hf

theorem triple_openScope (closer : Opcode) (hc : here.command.opcode.closer? = some closer) :
    Triple self (Calm base) (do
      openScope id
      return Flow.advance) (fun flow c => Alike base c ∧ Steers base here id flow c)
      fun f c => Alike base c ∧ Breaks act self base here f c := by
  refine triple_bind (Q := fun _ c => Alike base c ∧ c.scopes.entries = id :: base.scopes.entries)
    (triple_modify fun c h => ⟨h.1.trans (.scopes c _), ?_⟩) fun _ => triple_pure fun c h =>
      ⟨h.1, .advance ?_⟩
  · rw [← h.2]
    rfl
  · rw [h.2, Opcode.track_opener _ _ (Opcode.kind_opener hc)]

/-- A closer takes its opener off the stack, goes back to it or on, and complains about any other. -/
theorem dispatched_closer (closer : Opcode) {goOn : NodeId → Node κ ω α → ChainRun κ ω α Flow}
    (hcl : here.command.opcode = closer) (hc : closer.kind = .closer)
    (h : ∀ opener n (popped : Chain κ ω α), popped.fixed? opener = some n.command.fixed →
      (n.command.opcode.closer? = some closer ∧
        Quiet self popped (goOn opener n) (fun flow => flow = .advance ∨ flow = .jump opener)
          fun _ => False) ∨
      (n.command.opcode.closer? ≠ some closer ∧ goOn opener n = mismatch n.command closer)) :
    Dispatched act self base here id (do
      let opener ← closeScope closer
      let n ← node opener
      goOn opener n) := by
  subst hcl
  refine triple_bind (Q := fun opener c => ∃ rest, base.scopes.entries = opener :: rest ∧
    c = { base with scopes := ⟨rest⟩ }) (triple_chain ?_) fun opener => ?_
  · rintro base rfl
    cases hp : base.scopes.entries with
    | nil =>
      have hpop : base.scopes.pop? = none := by rw [Scopes.pop?, hp]
      rw [hpop]
      refine triple_throw ?_
      rintro _ rfl
      exact ⟨.refl _, .empty hc hp rfl⟩
    | cons opener rest =>
      have hpop : base.scopes.pop? = some (opener, ⟨rest⟩) := by rw [Scopes.pop?, hp]
      rw [hpop]
      exact triple_bind (Q := fun _ c => c = { base with scopes := ⟨rest⟩ }) (triple_set fun _ _ => rfl)
        fun _ => triple_pure fun _ hc => ⟨rest, rfl, hc⟩
  · rintro c answer c' ⟨rest, hs, rfl⟩ hr
    refine triple_node (fun n hn => ?_) _ answer c' rfl hr
    have hfix : base.fixed? opener = some n.command.fixed := by rw [Chain.fixed?, hn]; rfl
    have hcode : base.opcode? opener = some n.command.opcode := by rw [Chain.opcode?, hn]; rfl
    -- The top is off the stack by now, whichever opener it is.
    rcases h opener n { base with scopes := ⟨rest⟩ } hfix with ⟨hk, hq⟩ | ⟨hk, hm⟩
    · refine Triple.imp hq (fun c hc => hc ▸ .refl _) ?_ fun _ _ hf => hf.2.elim
      rintro _ c ⟨⟨ha, hsc⟩, rfl | rfl⟩
      · exact ⟨(Alike.scopes base _).trans ha, .advance (by rw [hsc, Opcode.track_closer _ _ hc, hs]; rfl)⟩
      · exact ⟨(Alike.scopes base _).trans ha, .back hcode hk (by rw [hs, hsc])⟩
    · rw [hm]
      refine triple_chain ?_
      rintro _ rfl
      refine triple_throw ?_
      rintro _ rfl
      exact ⟨.scopes base _, .mismatch hc hcode hk hs⟩

theorem dispatched_openRepeat {times : Lazy ω UInt32} {infinite : Bool}
    (hn : base.nodes[id]? = some here) (hc : here.command = .beginRepeat times infinite) :
    Dispatched act self base here id (openRepeat id times infinite) :=
  Triple.ofCalm ((quiet_script _).lead fun (_, resolved) =>
    (quiet_setCommand (.beginRepeat resolved _) (fixed?_of_node hn (by rw [hc]; rfl))).lead fun _ =>
      triple_openScope .endRepeat (by rw [hc]; rfl))

theorem dispatched_openInterval {absolute : Seconds} {seconds : Lazy ω Seconds}
    (hn : base.nodes[id]? = some here) (hc : here.command = .beginInterval seconds) :
    Dispatched act self base here id (openInterval absolute id seconds) := by
  refine Triple.ofCalm ((quiet_script _).lead fun (_, resolved) =>
    (quiet_setCommand (.beginInterval resolved) (fixed?_of_node hn (by rw [hc]; rfl))).lead fun _ =>
      (quiet_waitStart absolute).lead fun _ => triple_ite (fun _ => ?_) fun _ => ?_)
  · exact (quiet_modifyScratch _).lead fun _ => triple_openScope .endInterval (by rw [hc]; rfl)
  · exact triple_pure fun c hc => ⟨hc.1, .suspend hc.2⟩

theorem dispatched_of_opener (absolute : Seconds) (hn : base.nodes[id]? = some here)
    (hk : here.command.opcode.kind = .opener) :
    Dispatched act self base here id (dispatch act self absolute id) := by
  refine triple_at hn ?_
  cases hcmd : here.command with
  | beginRepeat times infinite => exact dispatched_openRepeat hn hcmd
  | beginWhile holds => exact (triple_openScope .endWhile (by rw [hcmd]; rfl)).ofCalm
  | beginInterval seconds => exact dispatched_openInterval hn hcmd
  | _ =>
    rw [hcmd] at hk
    cases hk

/-- The three closers differ in what they do with an opener of their kind only, and that cannot fail. -/
theorem closer_form (act : α → Caller → Script κ ω (Except Failure Unit)) (self : Caller)
    (absolute : Seconds) (hn : base.nodes[id]? = some here)
    (hk : here.command.opcode.kind = .closer) :
    ∃ goOn : NodeId → Node κ ω α → ChainRun κ ω α Flow,
      (dispatch act self absolute id).run base = (do
        let opener ← closeScope here.command.opcode
        let n ← node opener
        goOn opener n : ChainRun κ ω α Flow).run base ∧
      ∀ opener n (popped : Chain κ ω α), popped.fixed? opener = some n.command.fixed →
        (n.command.opcode.closer? = some here.command.opcode ∧
          Quiet self popped (goOn opener n) (fun flow => flow = .advance ∨ flow = .jump opener)
            fun _ => False) ∨
        (n.command.opcode.closer? ≠ some here.command.opcode ∧
          goOn opener n = mismatch n.command here.command.opcode) := by
  rw [dispatch, run_bind, run_node_of hn]
  simp only [Script.bind]
  cases hcmd : here.command with
  | endRepeat =>
    refine ⟨_, rfl, fun opener n popped ho => ?_⟩
    obtain ⟨command, _, _, _⟩ := n
    cases command with
    | beginRepeat times infinite =>
      refine .inl ⟨rfl, ?_⟩
      cases infinite with
      | true => exact quiet_pure (.inr rfl)
      | false =>
        refine (quiet_script _).bind fun count _ => quiet_ite ?_ ?_
        · exact (quiet_setCommand
            (.beginRepeat { count.2 with cached := some (count.1 - 1) } false) ho).bind
              fun _ _ => quiet_pure (.inr rfl)
        · exact (quiet_setCommand (.beginRepeat times.reset false) ho).bind fun _ _ =>
            quiet_pure (.inl rfl)
    | _ => exact .inr ⟨by rintro ⟨⟩, rfl⟩
  | endWhile =>
    refine ⟨_, rfl, fun opener n popped ho => ?_⟩
    obtain ⟨command, _, _, _⟩ := n
    cases command with
    | beginWhile holds =>
      exact .inl ⟨rfl, (quiet_script _).bind fun holds _ =>
        quiet_ite (quiet_pure (.inr rfl)) (quiet_pure (.inl rfl))⟩
    | _ => exact .inr ⟨by rintro ⟨⟩, rfl⟩
  | endInterval =>
    refine ⟨_, rfl, fun opener n popped ho => ?_⟩
    obtain ⟨command, _, _, _⟩ := n
    cases command with
    | beginInterval seconds => exact .inl ⟨rfl, quiet_pure (.inr rfl)⟩
    | _ => exact .inr ⟨by rintro ⟨⟩, rfl⟩
  | _ =>
    rw [hcmd] at hk
    cases hk

theorem dispatched_of_closer (absolute : Seconds) (hn : base.nodes[id]? = some here)
    (hk : here.command.opcode.kind = .closer) :
    Dispatched act self base here id (dispatch act self absolute id) := by
  obtain ⟨goOn, hrun, hgo⟩ := closer_form act self absolute hn hk
  rintro c answer c' rfl hr
  rw [hrun] at hr
  exact dispatched_closer here.command.opcode rfl hk hgo c answer c' rfl hr

theorem dispatched_of_branch (absolute : Seconds) (hn : base.nodes[id]? = some here)
    (hk : here.command.opcode.kind = .branch) :
    Dispatched act self base here id (dispatch act self absolute id) := by
  refine triple_at hn ?_
  refine Quiet.branch ?_ hk
  cases hcmd : here.command with
  | beginIf holds =>
    refine (quiet_script _).bind fun holds _ => quiet_ite ?_ ?_
    · exact quiet_pure (.inl rfl)
    · exact quiet_jumpPast _
  | otherwise => exact quiet_jumpPast _
  | endIf => exact quiet_pure (.inl rfl)
  | _ =>
    rw [hcmd] at hk
    cases hk

section Plain

theorem quiet_awaitTime (absolute : Seconds) {seconds : Lazy ω Seconds}
    (h : base.fixed? id = some (Command.waitTime seconds : Command κ ω α).fixed) :
    Quiet self base (awaitTime absolute id seconds) Onward Mild := by
  refine (quiet_script _).bind fun (_, resolved) _ =>
    (quiet_setCommand (.waitTime resolved) h).bind fun _ _ =>
      (quiet_waitStart absolute).bind fun _ _ => quiet_ite ?_ (quiet_pure (.inr rfl))
  exact (quiet_modifyScratch _).bind fun _ _ => quiet_pure (.inl rfl)

theorem quiet_awaitFrames {frames : Lazy ω UInt32}
    (h : base.fixed? id = some (Command.waitFrames frames : Command κ ω α).fixed) :
    Quiet self base (awaitFrames id frames) Onward Mild := by
  refine (quiet_script _).bind fun (_, resolved) _ =>
    (quiet_setCommand (.waitFrames resolved) h).bind fun _ _ => quiet_scratch.bind fun s _ => ?_
  cases s.framesWaited with
  | none => exact (quiet_modifyScratch _).bind fun _ _ => quiet_pure (.inr rfl)
  | some waited =>
    refine quiet_ite ?_ ?_
    · exact (quiet_modifyScratch _).bind fun _ _ => quiet_pure (.inl rfl)
    · exact (quiet_modifyScratch _).bind fun _ _ => quiet_pure (.inr rfl)

theorem quiet_awaitMessageWhere {key : String} {condition : Lazy ω Condition}
    (h : base.fixed? id = some (Command.waitForMessageWhere key condition : Command κ ω α).fixed) :
    Quiet self base (awaitMessageWhere id key condition) Onward Mild :=
  (quiet_script _).bind fun (_, resolved) _ =>
    (quiet_setCommand (.waitForMessageWhere key resolved) h).bind fun _ _ => quiet_awaitMessage key _

theorem quiet_awaitAll {set : MemberSet κ ω}
    (h : base.fixed? id = some (Command.waitForAll set : Command κ ω α).fixed) :
    Quiet self base (awaitAll self id set) Onward Mild := by
  have hids : Quiet self base (awaited self id set Command.waitForAll) anything Mild :=
    quiet_awaited fun _ => h
  exact hids.bind fun _ _ => (quiet_script _).bind fun _ _ => quiet_endAwait _

theorem quiet_awaitFirst {set : MemberSet κ ω}
    (h : base.fixed? id = some (Command.waitForFirst set : Command κ ω α).fixed) :
    Quiet self base (awaitFirst self id set) Onward Mild := by
  have hids : Quiet self base (awaited self id set Command.waitForFirst) anything Mild :=
    quiet_awaited fun _ => h
  refine hids.bind fun ids _ => (quiet_script _).bind fun _ _ => quiet_ite ?_ (quiet_endAwait _)
  exact (quiet_finishEach ids).bind fun _ _ => quiet_endAwait _

theorem quiet_attach {source : Source κ ω} {target : Option (Lazy ω EntityId)}
    (h : base.fixed? id = some (Command.addComponent source target : Command κ ω α).fixed) :
    Quiet self base (attach self id source target) Onward Mild :=
  (quiet_resolveTarget target).bind fun (entity, target) _ =>
    (quiet_setCommand (.addComponent source target) h).bind fun _ _ =>
      (quiet_produce source target h).bind fun component _ =>
        (quiet_addComponent entity component).bind fun _ _ => quiet_pure (.inl rfl)

theorem quiet_detach {selector : Lazy ω Selector} {target : Option (Lazy ω EntityId)}
    (h : base.fixed? id = some (Command.removeComponent selector target : Command κ ω α).fixed) :
    Quiet self base (detach self id selector target) Onward Mild :=
  (quiet_resolveTarget target).bind fun (entity, target) _ =>
    (quiet_setCommand (.removeComponent selector target) h).bind fun _ _ =>
      (quiet_script _).bind fun (chosen, resolved) _ =>
        (quiet_setCommand (.removeComponent resolved target) h).bind fun _ _ =>
          (quiet_pick entity chosen).bind fun component _ =>
            (quiet_stop component .detached).bind fun _ _ => quiet_pure (.inl rfl)

theorem quiet_removeWhere {condition : Lazy ω Condition}
    (h : base.fixed? id = some (Command.removeEntitiesWhere condition : Command κ ω α).fixed) :
    Quiet self base (removeWhere id condition) Onward Mild :=
  (quiet_script _).bind fun (_, resolved) _ =>
    (quiet_setCommand (.removeEntitiesWhere resolved) h).bind fun _ _ =>
      (quiet_script _).bind fun _ _ => (quiet_removeEach _).bind fun _ _ => quiet_pure (.inl rfl)

theorem quiet_removeTarget {target : Option (Lazy ω EntityId)}
    (h : base.fixed? id = some (Command.removeEntity target : Command κ ω α).fixed) :
    Quiet self base (removeTarget self id target) Onward Mild :=
  (quiet_resolveTarget target).bind fun (entity, target) _ =>
    (quiet_setCommand (.removeEntity target) h).bind fun _ _ =>
      (quiet_removeEntity entity).bind fun _ _ => quiet_pure (.inl rfl)

theorem quiet_send {key : String} {data : Lazy ω Json}
    (h : base.fixed? id = some (Command.sendMessage key data : Command κ ω α).fixed) :
    Quiet self base (send id key data) Onward Mild :=
  (quiet_script _).bind fun (_, resolved) _ =>
    (quiet_setCommand (.sendMessage key resolved) h).bind fun _ _ =>
      (quiet_script _).bind fun _ _ => quiet_pure (.inl rfl)

end Plain

theorem dispatched_of_plain (absolute : Seconds) (hn : base.nodes[id]? = some here)
    (hk : here.command.opcode.kind = .plain) :
    Dispatched act self base here id (dispatch act self absolute id) := by
  refine triple_at hn ?_
  have hfixed := fixed?_of_node hn rfl
  obtain ⟨command, _, _, _⟩ := here
  cases command with
  | call action => exact dispatched_call rfl
  | waitTime seconds => exact (quiet_awaitTime absolute hfixed).errand hk
  | waitForAll set => exact (quiet_awaitAll hfixed).errand hk
  | waitForFirst set => exact (quiet_awaitFirst hfixed).errand hk
  | waitUntil holds =>
    exact Quiet.errand ((quiet_script _).bind fun _ _ =>
      quiet_ite (quiet_pure (.inr rfl)) (quiet_pure (.inl rfl))) hk
  | waitFrames frames => exact (quiet_awaitFrames hfixed).errand hk
  | waitForMessage key => exact (quiet_awaitMessage key none).errand hk
  | waitForMessageWhere key condition => exact (quiet_awaitMessageWhere hfixed).errand hk
  | addComponent source target => exact (quiet_attach hfixed).errand hk
  | removeComponent selector target => exact (quiet_detach hfixed).errand hk
  | removeEntitiesWhere condition => exact (quiet_removeWhere hfixed).errand hk
  | removeEntity target => exact (quiet_removeTarget hfixed).errand hk
  | sendMessage key data => exact (quiet_send hfixed).errand hk
  | _ => cases hk

theorem dispatch_spec (absolute : Seconds) (hn : base.nodes[id]? = some here) :
    Dispatched act self base here id (dispatch act self absolute id) := by
  cases hk : here.command.opcode.kind with
  | opener => exact dispatched_of_opener absolute hn hk
  | closer => exact dispatched_of_closer absolute hn hk
  | branch => exact dispatched_of_branch absolute hn hk
  | plain => exact dispatched_of_plain absolute hn hk

end ChainRun
end FrameChain
