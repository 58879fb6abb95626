import FrameChain.Proofs.Chain.Cursor

set_option autoImplicit false

namespace FrameChain.ChainRun

open Chain

variable {κ ω α τ υ : Type} [Named κ] {self : Caller}

/-- Whatever comes of the run, the chain waits for the same message as before. -/
def Deaf (self : Caller) (t : ChainRun κ ω α τ) : Prop :=
  ∀ key, Triple self (·.scratch.messageKey = key) t (fun _ c => c.scratch.messageKey = key)
    fun _ c => c.scratch.messageKey = key

section Rules

theorem Deaf.bind {t : ChainRun κ ω α τ} {f : τ → ChainRun κ ω α υ} (ht : Deaf self t)
    (hf : ∀ a, Deaf self (f a)) : Deaf self (t >>= f) :=
  fun key => triple_bind (ht key) fun a => hf a key

theorem deaf_pure (a : τ) : Deaf self (pure a : ChainRun κ ω α τ) := fun _ => triple_pure fun _ hc => hc

theorem deaf_throw (f : Failure) : Deaf self (throw f : ChainRun κ ω α τ) :=
  fun _ => triple_throw fun _ hc => hc

theorem deaf_chain {f : Chain κ ω α → ChainRun κ ω α τ} (hf : ∀ c, Deaf self (f c)) :
    Deaf self (chain >>= f) :=
  fun key => triple_chain fun c hc => (hf c key).weaken fun _ he => he ▸ hc

theorem deaf_modify {f : Chain κ ω α → Chain κ ω α}
    (hf : ∀ c, (f c).scratch.messageKey = c.scratch.messageKey) :
    Deaf self (modify f : ChainRun κ ω α Unit) :=
  fun _ => triple_modify fun c hc => (hf c).trans hc

theorem deaf_script (p : Script κ ω τ) : Deaf self (script p : ChainRun κ ω α τ) :=
  fun _ => triple_script fun _ _ hc => hc

theorem deaf_demand (p : Script κ ω (Except Failure τ)) : Deaf self (demand p : ChainRun κ ω α τ) :=
  fun _ => triple_demand (fun _ _ hc => hc) fun _ _ hc _ => hc

theorem deaf_ite {p : Prop} [Decidable p] {t u : ChainRun κ ω α τ} (ht : Deaf self t)
    (hu : Deaf self u) : Deaf self (if p then t else u) :=
  fun key => triple_ite (fun _ => ht key) fun _ => hu key

end Rules

section Parts

theorem deaf_scratch : Deaf self (scratch : ChainRun κ ω α Scratch) := deaf_chain fun _ => deaf_pure _

theorem deaf_modifyScratch {f : Scratch → Scratch} (hf : ∀ s, (f s).messageKey = s.messageKey) (a : τ) :
    Deaf self (do
      modifyScratch f
      return a : ChainRun κ ω α τ) :=
  Deaf.bind (deaf_modify fun c => hf c.scratch) fun _ => deaf_pure a

theorem deaf_node (id : NodeId) : Deaf self (node id : ChainRun κ ω α (Node κ ω α)) := by
  refine deaf_chain fun c => ?_
  cases c.nodes[id]? with
  | some n => exact deaf_pure n
  | none => exact deaf_script _

theorem deaf_setCommand (id : NodeId) (command : Command κ ω α) : Deaf self (setCommand id command) :=
  deaf_modify fun _ => rfl

theorem deaf_openScope (id : NodeId) : Deaf self (openScope id : ChainRun κ ω α Unit) :=
  deaf_modify fun _ => rfl

theorem deaf_closeScope (closer : Opcode) : Deaf self (closeScope closer : ChainRun κ ω α NodeId) := by
  intro key
  refine triple_chain fun c hc => ?_
  cases c.scopes.pop? with
  | none => exact triple_throw fun _ he => he ▸ hc
  | some top =>
    exact triple_bind (Q := fun _ d => d.scratch.messageKey = key) (triple_set fun _ _ => hc)
      fun _ => deaf_pure _ key

theorem deaf_mismatch (opener : Command κ ω α) (closer : Opcode) :
    Deaf self (mismatch opener closer : ChainRun κ ω α τ) := deaf_chain fun _ => deaf_throw _

theorem deaf_unmatched (opcode : Opcode) : Deaf self (unmatched opcode : ChainRun κ ω α τ) :=
  deaf_chain fun _ => deaf_throw _

theorem deaf_consumed (opcode : Opcode) : Deaf self (consumed opcode : ChainRun κ ω α τ) :=
  deaf_chain fun _ => deaf_throw _

theorem deaf_resolveTarget (target : Option (Lazy ω EntityId)) :
    Deaf self (resolveTarget self target : ChainRun κ ω α _) := by
  cases target with
  | none => exact deaf_pure _
  | some target => exact (deaf_script _).bind fun _ => deaf_pure _

theorem deaf_waitStart (absolute : Seconds) : Deaf self (waitStart absolute : ChainRun κ ω α Seconds) :=
  deaf_scratch.bind fun _ => deaf_modifyScratch (by intro _; rfl) _

theorem deaf_isDone (id : ComponentId) : Deaf self (isDone id : ChainRun κ ω α Bool) :=
  (deaf_script _).bind fun _ => deaf_pure _

theorem deaf_enlist (owner : EntityId) (members : List (Member κ)) :
    Deaf self (enlist owner members : ChainRun κ ω α (List ComponentId)) := by
  induction members with
  | nil => exact deaf_pure _
  | cons m rest ih =>
    cases m with
    | fresh component => exact (deaf_demand _).bind fun _ => ih.bind fun _ => deaf_pure _
    | existing id => exact ih.bind fun _ => deaf_pure _

theorem deaf_finishEach (members : List ComponentId) :
    Deaf self (finishEach members : ChainRun κ ω α Unit) := by
  induction members with
  | nil => exact deaf_pure _
  | cons id rest ih =>
    exact (deaf_isDone id).bind fun _ => deaf_ite ((deaf_demand _).bind fun _ => ih) ih

theorem deaf_removeEach (entities : List EntityId) :
    Deaf self (removeEach entities : ChainRun κ ω α Unit) := by
  induction entities with
  | nil => exact deaf_pure _
  | cons entity rest ih => exact (deaf_demand _).bind fun _ => ih

theorem deaf_awaited (id : NodeId) (set : MemberSet κ ω) (command : MemberSet κ ω → Command κ ω α) :
    Deaf self (awaited self id set command) := by
  refine deaf_scratch.bind fun s => ?_
  cases s.awaited with
  | some ids => exact deaf_pure _
  | none =>
    have hrest (members : List (Member κ)) : Deaf self (do
        let ids ← enlist self.entity members
        modifyScratch fun s => { s with awaited := some ids }
        return ids : ChainRun κ ω α (List ComponentId)) :=
      (deaf_enlist _ _).bind fun _ => deaf_modifyScratch (by intro _; rfl) _
    cases set with
    | members list =>
      cases list with
      | none => exact (deaf_consumed _).bind hrest
      | some list => exact (deaf_setCommand id _).bind fun _ => hrest list
    | factory f => exact (deaf_script _).bind hrest

theorem deaf_produce (id : NodeId) (source : Source κ ω) (target : Option (Lazy ω EntityId)) :
    Deaf self (produce id source target : ChainRun κ ω α κ) := by
  cases source with
  | single component =>
    cases component with
    | none => exact deaf_consumed _
    | some component => exact (deaf_setCommand _ _).bind fun _ => deaf_pure _
  | factory f => exact deaf_script _

theorem deaf_pick (entity : EntityId) (selector : Selector) :
    Deaf self (pick entity selector : ChainRun κ ω α ComponentId) := by
  cases selector with
  | id component => exact deaf_pure _
  | name name =>
    refine (deaf_script _).bind fun s => ?_
    cases s.findComponent? entity name with
    | none => exact deaf_throw _
    | some component => exact deaf_pure _

theorem deaf_endAwait (done : Bool) : Deaf self (endAwait done : ChainRun κ ω α Flow) :=
  deaf_ite (deaf_modifyScratch (by intro _; rfl) _) (deaf_pure _)

end Parts

section Commands

variable {act : α → Caller → Script κ ω (Except Failure Unit)} {absolute : Seconds}

theorem deaf_openLoop (id : NodeId) : Deaf self (do
    openScope id
    return Flow.advance : ChainRun κ ω α Flow) :=
  (deaf_openScope id).bind fun _ => deaf_pure _

theorem deaf_jumpPast (target : Option NodeId) (opcode : Opcode) :
    Deaf self (jumpPast target opcode : ChainRun κ ω α Flow) := by
  cases target with
  | none => exact deaf_unmatched opcode
  | some target => exact deaf_pure _

theorem deaf_closer (closer : Opcode) {goOn : NodeId → Node κ ω α → ChainRun κ ω α Flow}
    (h : ∀ opener n, Deaf self (goOn opener n)) : Deaf self (do
      let opener ← closeScope closer
      let n ← node opener
      goOn opener n) :=
  (deaf_closeScope closer).bind fun opener => (deaf_node opener).bind (h opener)

theorem deaf_openRepeat (id : NodeId) (times : Lazy ω UInt32) (infinite : Bool) :
    Deaf self (openRepeat id times infinite : ChainRun κ ω α Flow) :=
  (deaf_script _).bind fun _ => (deaf_setCommand _ _).bind fun _ => deaf_openLoop id

theorem deaf_closeRepeat : Deaf self (closeRepeat : ChainRun κ ω α Flow) := by
  refine deaf_closer .endRepeat fun opener n => ?_
  cases n.command with
  | beginRepeat times infinite =>
    cases infinite with
    | true => exact deaf_pure _
    | false =>
      exact (deaf_script _).bind fun _ => deaf_ite
        ((deaf_setCommand _ _).bind fun _ => deaf_pure _)
        ((deaf_setCommand _ _).bind fun _ => deaf_pure _)
  | _ => exact deaf_mismatch _ _

theorem deaf_closeWhile : Deaf self (closeWhile : ChainRun κ ω α Flow) := by
  refine deaf_closer .endWhile fun opener n => ?_
  cases n.command with
  | beginWhile holds => exact (deaf_script _).bind fun _ => deaf_ite (deaf_pure _) (deaf_pure _)
  | _ => exact deaf_mismatch _ _

theorem deaf_openInterval (id : NodeId) (seconds : Lazy ω Seconds) :
    Deaf self (openInterval absolute id seconds : ChainRun κ ω α Flow) := by
  refine (deaf_script _).bind fun _ => (deaf_setCommand _ _).bind fun _ =>
    (deaf_waitStart _).bind fun _ => deaf_ite ?_ (deaf_pure _)
  exact Deaf.bind (deaf_modify (by intro _; rfl)) fun _ => deaf_openLoop id

theorem deaf_closeInterval : Deaf self (closeInterval : ChainRun κ ω α Flow) := by
  refine deaf_closer .endInterval fun opener n => ?_
  cases n.command with
  | beginInterval seconds => exact deaf_pure _
  | _ => exact deaf_mismatch _ _

theorem deaf_awaitTime (id : NodeId) (seconds : Lazy ω Seconds) :
    Deaf self (awaitTime absolute id seconds : ChainRun κ ω α Flow) :=
  (deaf_script _).bind fun _ => (deaf_setCommand _ _).bind fun _ =>
    (deaf_waitStart _).bind fun _ => deaf_ite (deaf_modifyScratch (by intro _; rfl) _) (deaf_pure _)

theorem deaf_awaitFrames (id : NodeId) (frames : Lazy ω UInt32) :
    Deaf self (awaitFrames id frames : ChainRun κ ω α Flow) := by
  refine (deaf_script _).bind fun _ => (deaf_setCommand _ _).bind fun _ => deaf_scratch.bind fun s => ?_
  cases s.framesWaited with
  | none => exact deaf_modifyScratch (by intro _; rfl) _
  | some waited =>
    exact deaf_ite (deaf_modifyScratch (by intro _; rfl) _) (deaf_modifyScratch (by intro _; rfl) _)

theorem deaf_awaitAll (id : NodeId) (set : MemberSet κ ω) :
    Deaf self (awaitAll self id set : ChainRun κ ω α Flow) :=
  (deaf_awaited id set _).bind fun _ => (deaf_script _).bind fun _ => deaf_endAwait _

theorem deaf_awaitFirst (id : NodeId) (set : MemberSet κ ω) :
    Deaf self (awaitFirst self id set : ChainRun κ ω α Flow) := by
  refine (deaf_awaited id set _).bind fun members => (deaf_script _).bind fun _ =>
    deaf_ite ?_ (deaf_endAwait _)
  exact (deaf_finishEach members).bind fun _ => deaf_endAwait _

theorem deaf_attach (id : NodeId) (source : Source κ ω) (target : Option (Lazy ω EntityId)) :
    Deaf self (attach self id source target : ChainRun κ ω α Flow) :=
  (deaf_resolveTarget target).bind fun _ => (deaf_setCommand _ _).bind fun _ =>
    (deaf_produce id source _).bind fun _ => (deaf_demand _).bind fun _ => deaf_pure _

theorem deaf_detach (id : NodeId) (selector : Lazy ω Selector) (target : Option (Lazy ω EntityId)) :
    Deaf self (detach self id selector target : ChainRun κ ω α Flow) :=
  (deaf_resolveTarget target).bind fun _ => (deaf_setCommand _ _).bind fun _ =>
    (deaf_script _).bind fun _ => (deaf_setCommand _ _).bind fun _ =>
      (deaf_pick _ _).bind fun _ => (deaf_demand _).bind fun _ => deaf_pure _

theorem deaf_removeWhere (id : NodeId) (condition : Lazy ω Condition) :
    Deaf self (removeWhere id condition : ChainRun κ ω α Flow) :=
  (deaf_script _).bind fun _ => (deaf_setCommand _ _).bind fun _ =>
    (deaf_script _).bind fun _ => (deaf_removeEach _).bind fun _ => deaf_pure _

theorem deaf_removeTarget (id : NodeId) (target : Option (Lazy ω EntityId)) :
    Deaf self (removeTarget self id target : ChainRun κ ω α Flow) :=
  (deaf_resolveTarget target).bind fun _ => (deaf_setCommand _ _).bind fun _ =>
    (deaf_demand _).bind fun _ => deaf_pure _

theorem deaf_send (id : NodeId) (key : String) (data : Lazy ω Json) :
    Deaf self (send id key data : ChainRun κ ω α Flow) :=
  (deaf_script _).bind fun _ => (deaf_setCommand _ _).bind fun _ =>
    (deaf_script _).bind fun _ => deaf_pure _

theorem deaf_dispatch {c : Chain κ ω α} {id : NodeId} {n : Node κ ω α} (hn : c.nodes[id]? = some n)
    (hk : n.command.opcode ≠ .waitForMessage) (hk' : n.command.opcode ≠ .waitForMessageWhere) :
    Triple self (· = c) (dispatch act self absolute id)
      (fun _ d => d.scratch.messageKey = c.scratch.messageKey)
      fun _ d => d.scratch.messageKey = c.scratch.messageKey := by
  refine triple_at hn ?_
  refine Triple.weaken ((?_ : Deaf self _) c.scratch.messageKey) fun _ (hd : _ = c) => hd ▸ rfl
  cases hc : n.command with
  | beginRepeat times infinite => exact deaf_openRepeat id times infinite
  | endRepeat => exact deaf_closeRepeat
  | call action => exact (deaf_demand _).bind fun _ => deaf_pure _
  | beginWhile holds => exact deaf_openLoop id
  | endWhile => exact deaf_closeWhile
  | beginInterval seconds => exact deaf_openInterval id seconds
  | endInterval => exact deaf_closeInterval
  | beginIf holds =>
    exact (deaf_script _).bind fun _ => deaf_ite (deaf_pure _) (deaf_jumpPast _ _)
  | otherwise => exact deaf_jumpPast _ _
  | endIf => exact deaf_pure _
  | waitTime seconds => exact deaf_awaitTime id seconds
  | addComponent source target => exact deaf_attach id source target
  | waitForAll set => exact deaf_awaitAll id set
  | waitForFirst set => exact deaf_awaitFirst id set
  | waitUntil holds => exact (deaf_script _).bind fun _ => deaf_ite (deaf_pure _) (deaf_pure _)
  | waitFrames frames => exact deaf_awaitFrames id frames
  | waitForMessage key => exact absurd (congrArg Command.opcode hc) hk
  | waitForMessageWhere key condition => exact absurd (congrArg Command.opcode hc) hk'
  | removeComponent selector target => exact deaf_detach id selector target
  | removeEntitiesWhere condition => exact deaf_removeWhere id condition
  | removeEntity target => exact deaf_removeTarget id target
  | sendMessage key data => exact deaf_send id key data

theorem deaf_leave (id : NodeId) : Deaf self (leave id : ChainRun κ ω α Unit) :=
  deaf_modify fun _ => rfl

theorem deaf_moveAfter (id : NodeId) : Deaf self (moveAfter id : ChainRun κ ω α Unit) :=
  (deaf_node id).bind fun _ => deaf_modify fun _ => rfl

theorem deaf_settle (id : NodeId) (flow : Flow) : Deaf self (settle id flow : ChainRun κ ω α Bool) := by
  cases flow with
  | advance => exact (deaf_leave id).bind fun _ => (deaf_moveAfter id).bind fun _ => deaf_pure _
  | jump target => exact Deaf.bind (deaf_modify (by intro _; rfl)) fun _ => deaf_pure _
  | jumpPast target => exact (deaf_leave id).bind fun _ => (deaf_moveAfter target).bind fun _ => deaf_pure _
  | suspend => exact deaf_pure _

theorem deaf_turn {c : Chain κ ω α} {id : NodeId} {n : Node κ ω α} (hn : c.nodes[id]? = some n)
    (hk : n.command.opcode ≠ .waitForMessage) (hk' : n.command.opcode ≠ .waitForMessageWhere) :
    Triple self (· = c) (turn act self absolute id)
      (fun _ d => d.scratch.messageKey = c.scratch.messageKey)
      fun _ d => d.scratch.messageKey = c.scratch.messageKey :=
  triple_bind (deaf_dispatch hn hk hk') fun flow => deaf_settle id flow _

end Commands

end FrameChain.ChainRun
