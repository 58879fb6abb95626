import FrameChain.Proofs.Chain.Outcome

set_option autoImplicit false

/-! All waiting commands share one scratch record. Each uses its own part of it, finds the rest empty,
and leaves everything empty when it is left. -/
namespace FrameChain

open Chain

variable {κ ω α τ υ : Type}

inductive Memo where
  | nothing
  | start
  | frames
  | message (key : String)
  | members

inductive Memo.Suits : Memo → Scratch → Prop
  | empty (memo : Memo) : Suits memo {}
  | start (since : Seconds) : Suits .start { waitStart := some since }
  | frames (waited : UInt32) : Suits .frames { framesWaited := some waited }
  | message (key : String) (arrived : Bool) : Suits (.message key) { messageKey := some key, arrived }
  | members (ids : List ComponentId) : Suits .members { awaited := some ids }

structure Note where
  memo : Memo
  sampled : Option Seconds

def Command.note : Command κ ω α → Note
  | waitTime seconds | beginInterval seconds => ⟨.start, seconds.cached⟩
  | waitFrames _ => ⟨.frames, none⟩
  | waitForMessage key | waitForMessageWhere key _ => ⟨.message key, none⟩
  | waitForAll _ | waitForFirst _ => ⟨.members, none⟩
  | _ => ⟨.nothing, none⟩

/-- The duration that a command waits for, and whether that much time lets it go on. -/
def Command.timer? : Command κ ω α → Option (Lazy ω Seconds × (Seconds → Seconds → Bool))
  | waitTime seconds => some (seconds, fun elapsed limit => elapsed > limit)
  | beginInterval seconds => some (seconds, fun elapsed limit => elapsed ≥ limit)
  | _ => none

def Command.sampling (limit : Seconds) : Command κ ω α → Command κ ω α
  | waitTime seconds => waitTime { seconds with cached := some limit }
  | beginInterval seconds => beginInterval { seconds with cached := some limit }
  | command => command

namespace Memo.Suits

variable {s : Scratch}

theorem nothing (h : Suits .nothing s) : s = {} := by cases h; rfl

theorem setStart (h : Suits .start s) (since : Option Seconds) :
    { s with waitStart := since } = { waitStart := since } := by cases h <;> rfl

theorem setFrames (h : Suits .frames s) (waited : Option UInt32) :
    { s with framesWaited := waited } = { framesWaited := waited } := by cases h <;> rfl

theorem setMessage {key : String} (h : Suits (.message key) s) (messageKey : Option String) :
    { s with messageKey, arrived := false } = { messageKey } := by cases h <;> rfl

theorem setMembers (h : Suits .members s) (ids : Option (List ComponentId)) :
    { s with awaited := ids } = { awaited := ids } := by cases h <;> rfl

theorem arrive {memo : Memo} {key : String} (h : memo.Suits s) (hk : s.messageKey = some key) :
    memo.Suits { s with arrived := true } := by
  cases h with
  | message => exact .message _ true
  | _ => cases hk

theorem idle {memo : Memo} (h : memo.Suits s) (hm : memo ≠ .start) : s.waitStart = none := by
  cases h with
  | start => exact absurd rfl hm
  | _ => rfl

end Memo.Suits

namespace Chain

variable {c base : Chain κ ω α} {memo : Memo} {id : NodeId}

def note? (c : Chain κ ω α) (id : NodeId) : Option Note := c.nodes[id]?.map (·.command.note)

def sample? (c : Chain κ ω α) (id : NodeId) : Option Seconds := (c.note? id).bind (·.sampled)

def memo? (c : Chain κ ω α) (id : NodeId) : Option Memo := (c.note? id).map (·.memo)

def sampling (c : Chain κ ω α) (id : NodeId) (command : Command κ ω α) (limit : Seconds) :
    Chain κ ω α :=
  c.modifyNode id fun node => { node with command := command.sampling limit }

theorem note?_of_node {n : Node κ ω α} (hn : c.nodes[id]? = some n) :
    c.note? id = some n.command.note := by
  rw [note?, hn, Option.map_some]

theorem memo?_of_node {n : Node κ ω α} (hn : c.nodes[id]? = some n) :
    c.memo? id = some n.command.note.memo := by
  rw [memo?, note?_of_node hn, Option.map_some]

theorem note?_setCommand (c : Chain κ ω α) (id i : NodeId) (command : Command κ ω α) :
    (c.modifyNode id fun node => { node with command }).note? i =
      if id = i then (c.note? i).map fun _ => command.note else c.note? i := by
  simp only [note?, modifyNode, Array.getElem?_modify]
  split
  · rw [Option.map_map, Option.map_map]
    rfl
  · rfl

theorem note?_setCommand_same {command : Command κ ω α} (h : c.note? id = some command.note) :
    (c.modifyNode id fun node => { node with command }).note? = c.note? := by
  funext i
  rw [note?_setCommand]
  split
  · rename_i hi
    rw [← hi, h, Option.map_some]
  · rfl

def left (c : Chain κ ω α) (id : NodeId) : Chain κ ω α :=
  c.modifyNode id fun node =>
    if node.command.opcode = .beginRepeat then node else { node with command := node.command.reset }

theorem note?_left (c : Chain κ ω α) (id i : NodeId) :
    (c.left id).note? i = (c.note? i).map fun note => if id = i then { note with sampled := none } else note := by
  simp only [note?, left, modifyNode, Array.getElem?_modify]
  cases c.nodes[i]? with
  | none => split <;> rfl
  | some n =>
    obtain ⟨command, _, _, _⟩ := n
    by_cases hi : id = i
    · simp only [hi, if_true, Option.map_some]
      cases command <;> rfl
    · simp only [hi, if_false, Option.map_some]

/-- The chain waits with what the first one waits with, and its record is empty apart from this part. -/
structure Tidy (base : Chain κ ω α) (memo : Memo) (c : Chain κ ω α) : Prop where
  notes : c.note? = base.note?
  suits : memo.Suits c.scratch

theorem Tidy.at (h : Tidy base memo c) {s : Scratch} (hs : memo.Suits s) :
    Tidy base memo { c with scratch := s } := ⟨h.notes, hs⟩

theorem Tidy.clear (h : Tidy base memo c) {s : Scratch} (hs : s = {}) :
    Tidy base memo { c with scratch := s } ∧ s = {} := ⟨h.at (hs ▸ .empty memo), hs⟩

end Chain

namespace ChainRun

variable [Named κ] {self : Caller} {base : Chain κ ω α} {memo : Memo} {id : NodeId}

def Steady (self : Caller) (base : Chain κ ω α) (memo : Memo) (t : ChainRun κ ω α τ) : Prop :=
  Triple self (Tidy base memo) t (fun _ => Tidy base memo) fun _ => Tidy base memo

/-- The chain stays tidy, and where it does not wait its record is empty. -/
def Departs (self : Caller) (base : Chain κ ω α) (memo : Memo) (t : ChainRun κ ω α Flow) : Prop :=
  Triple self (Tidy base memo) t
    (fun flow c => Tidy base memo c ∧ (flow ≠ .suspend → c.scratch = {})) fun _ => Tidy base memo

section Rules

theorem Steady.bind {t : ChainRun κ ω α τ} {f : τ → ChainRun κ ω α υ} (ht : Steady self base memo t)
    (hf : ∀ a, Steady self base memo (f a)) : Steady self base memo (t >>= f) := triple_bind ht hf

theorem Steady.lead {t : ChainRun κ ω α τ} {f : τ → ChainRun κ ω α Flow}
    (ht : Steady self base memo t) (hf : ∀ a, Departs self base memo (f a)) :
    Departs self base memo (t >>= f) := triple_bind ht hf

theorem Steady.departs {t : ChainRun κ ω α Flow} (ht : Steady self base .nothing t) :
    Departs self base .nothing t :=
  ht.post fun _ _ hc => ⟨hc, fun _ => hc.suits.nothing⟩

theorem steady_pure (a : τ) : Steady self base memo (pure a) := triple_pure fun _ hc => hc

theorem steady_throw (f : Failure) : Steady self base memo (throw f : ChainRun κ ω α τ) :=
  triple_throw fun _ hc => hc

theorem steady_script (p : Script κ ω τ) : Steady self base memo (script p) :=
  triple_script fun _ _ hc => hc

theorem steady_demand (p : Script κ ω (Except Failure τ)) : Steady self base memo (demand p) :=
  triple_demand (fun _ _ hc => hc) fun _ _ hc _ => hc

theorem steady_ite {p : Prop} [Decidable p] {t u : ChainRun κ ω α τ} (ht : Steady self base memo t)
    (hu : Steady self base memo u) : Steady self base memo (if p then t else u) :=
  triple_ite (fun _ => ht) fun _ => hu

theorem steady_chain {f : Chain κ ω α → ChainRun κ ω α τ} (h : ∀ c, Steady self base memo (f c)) :
    Steady self base memo (chain >>= f) :=
  triple_chain fun c hc => (h c).weaken fun _ he => he ▸ hc

theorem steady_modifyScratch {f : Scratch → Scratch} (hf : ∀ s, memo.Suits s → memo.Suits (f s)) :
    Steady self base memo (modifyScratch f : ChainRun κ ω α Unit) :=
  triple_modify fun c hc => hc.at (hf c.scratch hc.suits)

theorem departs_modifyScratch {f : Scratch → Scratch} (hf : ∀ s, memo.Suits s → f s = {}) (flow : Flow) :
    Departs self base memo (do
      modifyScratch f
      return flow) := by
  refine triple_bind (Q := fun _ c => Tidy base memo c ∧ c.scratch = {}) (triple_modify fun c hc => ?_)
    fun _ => triple_pure fun _ hc => ⟨hc.1, fun _ => hc.2⟩
  exact hc.clear (hf c.scratch hc.suits)

theorem departs_suspend : Departs self base memo (pure .suspend) :=
  triple_pure fun _ hc => ⟨hc, fun hne => absurd rfl hne⟩

theorem departs_ite {p : Prop} [Decidable p] {t u : ChainRun κ ω α Flow}
    (ht : Departs self base memo t) (hu : Departs self base memo u) :
    Departs self base memo (if p then t else u) := triple_ite (fun _ => ht) fun _ => hu

end Rules

section Parts

theorem steady_scratch : Steady self base memo (scratch : ChainRun κ ω α Scratch) :=
  steady_chain fun _ => steady_pure _

theorem steady_isDone (id : ComponentId) : Steady self base memo (isDone id : ChainRun κ ω α Bool) :=
  (steady_script _).bind fun _ => steady_pure _

theorem steady_setCommand (command : Command κ ω α) (h : base.note? id = some command.note) :
    Steady self base memo (setCommand id command) :=
  triple_modify fun _ hc =>
    ⟨(note?_setCommand_same (by rw [hc.notes, h])).trans hc.notes, hc.suits⟩

theorem steady_openScope (id : NodeId) : Steady self base memo (openScope id : ChainRun κ ω α Unit) :=
  triple_modify fun _ hc => ⟨hc.notes, hc.suits⟩

theorem steady_closeScope (closer : Opcode) :
    Steady self base memo (closeScope closer : ChainRun κ ω α NodeId) := by
  refine triple_chain fun c hc => ?_
  cases c.scopes.pop? with
  | none => exact (steady_throw _).weaken fun _ he => he ▸ hc
  | some top =>
    exact triple_bind (Q := fun _ => Tidy base memo) (triple_set fun _ _ => ⟨hc.notes, hc.suits⟩)
      fun _ => steady_pure _

theorem steady_consumed (opcode : Opcode) :
    Steady self base memo (consumed opcode : ChainRun κ ω α τ) := steady_chain fun _ => steady_throw _

theorem steady_unmatched (opcode : Opcode) :
    Steady self base memo (unmatched opcode : ChainRun κ ω α τ) := steady_chain fun _ => steady_throw _

theorem steady_mismatch (opener : Command κ ω α) (closer : Opcode) :
    Steady self base memo (mismatch opener closer : ChainRun κ ω α τ) :=
  steady_chain fun _ => steady_throw _

theorem steady_jumpPast (target : Option NodeId) (opcode : Opcode) :
    Steady self base memo (jumpPast target opcode : ChainRun κ ω α Flow) := by
  cases target with
  | none => exact steady_unmatched opcode
  | some target => exact steady_pure _

theorem steady_resolveTarget (target : Option (Lazy ω EntityId)) :
    Steady self base memo (resolveTarget self target : ChainRun κ ω α _) := by
  cases target with
  | none => exact steady_pure _
  | some target => exact (steady_script _).bind fun _ => steady_pure _

theorem steady_enlist (owner : EntityId) (members : List (Member κ)) :
    Steady self base memo (enlist owner members : ChainRun κ ω α (List ComponentId)) := by
  induction members with
  | nil => exact steady_pure _
  | cons m rest ih =>
    cases m with
    | fresh component => exact (steady_demand _).bind fun _ => ih.bind fun _ => steady_pure _
    | existing id => exact ih.bind fun _ => steady_pure _

theorem steady_finishEach (ids : List ComponentId) :
    Steady self base memo (finishEach ids : ChainRun κ ω α Unit) := by
  induction ids with
  | nil => exact steady_pure _
  | cons id rest ih =>
    exact (steady_isDone id).bind fun _ => steady_ite ((steady_demand _).bind fun _ => ih) ih

theorem steady_removeEach (ids : List EntityId) :
    Steady self base memo (removeEach ids : ChainRun κ ω α Unit) := by
  induction ids with
  | nil => exact steady_pure _
  | cons id rest ih => exact (steady_demand _).bind fun _ => ih

theorem steady_closer (closer : Opcode) {goOn : NodeId → Node κ ω α → ChainRun κ ω α Flow}
    (h : ∀ opener n, base.note? opener = some n.command.note →
      Steady self base memo (goOn opener n)) : Steady self base memo (do
        let opener ← closeScope closer
        let n ← node opener
        goOn opener n) := by
  refine (steady_closeScope closer).bind fun opener => triple_of fun c hc => triple_node fun n hn => ?_
  refine (h opener n ?_).weaken fun _ he => he ▸ hc
  rw [← hc.notes, note?_of_node hn]

theorem steady_awaited {set : MemberSet κ ω} {command : MemberSet κ ω → Command κ ω α}
    (h : ∀ set, base.note? id = some (command set).note) :
    Steady self base .members (awaited self id set command) := by
  refine steady_scratch.bind fun s => ?_
  cases s.awaited with
  | some ids => exact steady_pure _
  | none =>
    have hrest (members : List (Member κ)) : Steady self base .members (do
        let ids ← enlist self.entity members
        modifyScratch fun s => { s with awaited := some ids }
        return ids : ChainRun κ ω α (List ComponentId)) :=
      (steady_enlist _ _).bind fun ids =>
        (steady_modifyScratch fun _ hs => hs.setMembers (some ids) ▸ .members ids).bind
          fun _ => steady_pure _
    cases set with
    | members list =>
      cases list with
      | none => exact (steady_consumed _).bind hrest
      | some list => exact (steady_setCommand _ (h _)).bind fun _ => hrest list
    | factory f => exact (steady_script _).bind hrest

theorem steady_produce (source : Source κ ω) (target : Option (Lazy ω EntityId))
    (h : base.note? id = some (Command.addComponent source target : Command κ ω α).note) :
    Steady self base memo (produce id source target) := by
  cases source with
  | single component =>
    cases component with
    | none => exact steady_consumed _
    | some component => exact (steady_setCommand (.addComponent (.single none) target) h).bind fun _ => steady_pure _
  | factory f => exact steady_script _

theorem steady_pick (entity : EntityId) (selector : Selector) :
    Steady self base memo (pick entity selector : ChainRun κ ω α ComponentId) := by
  cases selector with
  | id component => exact steady_pure _
  | name name =>
    refine (steady_script _).bind fun s => ?_
    cases s.findComponent? entity name with
    | none => exact steady_throw _
    | some component => exact steady_pure _

theorem departs_endAwait (done : Bool) :
    Departs self base .members (endAwait done : ChainRun κ ω α Flow) :=
  departs_ite (departs_modifyScratch (fun _ hs => hs.setMembers none) _) departs_suspend

theorem departs_awaitMessage (key : String) (filter : Option Condition) :
    Departs self base (.message key) (awaitMessage key filter : ChainRun κ ω α Flow) := by
  refine steady_scratch.lead fun s => departs_ite ?_ (departs_ite ?_ departs_suspend)
  · exact (steady_demand _).lead fun _ =>
      (steady_modifyScratch fun _ hs => hs.setMessage (some key) ▸ .message key false).lead
        fun _ => departs_suspend
  · exact (steady_script _).lead fun _ => departs_modifyScratch (fun _ hs => hs.setMessage none) _

end Parts

section Timers

variable {act : α → Caller → Script κ ω (Except Failure Unit)} {here : Node κ ω α} {absolute : Seconds}
  {c : Chain κ ω α} {seconds : Lazy ω Seconds} {passes : Seconds → Seconds → Bool}

theorem outcome_resolve (lazy : Lazy ω τ) (self : Caller) (σ : Setting κ ω) :
    (lazy.resolve : Script κ ω (τ × Lazy ω τ)).run self σ =
      ((lazy.value σ.world).1.map fun a => (a, { lazy with cached := some a }),
        ⟨σ.scene, (lazy.value σ.world).2⟩) := by
  have hplain := Script.run_recorded self (lazy.resolve : Script κ ω (τ × Lazy ω τ))
    ⟨σ.scene, σ.world, []⟩
  rw [Script.only_resolve] at hplain
  exact hplain.symm

theorem outcome_clocked (write : Lazy ω Seconds → Command κ ω α)
    (body : Seconds → Seconds → ChainRun κ ω α Flow) (σ : Setting κ ω) :
    ((do
      let (limit, resolved) ← script seconds.resolve
      setCommand id (write resolved)
      let start ← waitStart absolute
      body limit start : ChainRun κ ω α Flow).run c).run self σ =
      match seconds.value σ.world with
      | (.ok limit, w) =>
        ((body limit (c.scratch.waitStart.getD absolute)).run
          { c.modifyNode id (fun node =>
              { node with command := write { seconds with cached := some limit } }) with
            scratch := { c.scratch with waitStart := some (c.scratch.waitStart.getD absolute) } }).run
          self ⟨σ.scene, w⟩
      | (.error crash, w) => (.error crash, ⟨σ.scene, w⟩) := by
  simp only [run_bind, run_script, Script.bind_assoc]
  rw [Script.run_bind, outcome_resolve]
  cases seconds.value σ.world with
  | mk value w => cases value <;> rfl

variable (self act absolute) in
/-- What it comes to if a command waits for a time: it asks for its duration, keeps it, and looks whether
enough time has passed since its wait began, which is now if it has not begun. -/
theorem outcome_dispatch_timer (hn : c.nodes[id]? = some here)
    (ht : here.command.timer? = some (seconds, passes)) (σ : Setting κ ω) :
    ∃ scopes, ((dispatch act self absolute id).run c).run self σ =
      ((seconds.value σ.world).1.map fun limit =>
        let since := c.scratch.waitStart.getD absolute
        if passes (absolute - since) limit then
          (.ok .advance, { c.sampling id here.command limit with
            scratch := { c.scratch with waitStart := none }, scopes })
        else (.ok .suspend, { c.sampling id here.command limit with
            scratch := { c.scratch with waitStart := some since } }),
      ⟨σ.scene, (seconds.value σ.world).2⟩) := by
  rw [dispatch, run_bind, run_node_of hn]
  cases hcmd : here.command with
  | waitTime seconds =>
    rw [hcmd] at ht
    cases ht
    simp only [Script.bind, hcmd]
    refine ⟨c.scopes, (outcome_clocked .waitTime (fun limit start =>
      if absolute - start > limit then do
        modifyScratch fun s => { s with waitStart := none }
        return .advance
      else return .suspend) σ).trans ?_⟩
    rcases seconds.value σ.world with ⟨crash | limit, w⟩
    · rfl
    · by_cases hp : absolute - c.scratch.waitStart.getD absolute > limit
      · simp only [Except.map, hp, decide_true, if_true]
        rfl
      · simp only [Except.map, hp, decide_false, Bool.false_eq_true, if_false]
        rfl
  | beginInterval seconds =>
    rw [hcmd] at ht
    cases ht
    simp only [Script.bind, hcmd]
    refine ⟨c.scopes.push id, (outcome_clocked .beginInterval (fun limit start =>
      if absolute - start ≥ limit then do
        modifyScratch fun s => { s with waitStart := none }
        openScope id
        return .advance
      else return .suspend) σ).trans ?_⟩
    rcases seconds.value σ.world with ⟨crash | limit, w⟩
    · rfl
    · by_cases hp : absolute - c.scratch.waitStart.getD absolute ≥ limit
      · simp only [Except.map, hp, decide_true, if_true]
        rfl
      · simp only [Except.map, hp, decide_false, Bool.false_eq_true, if_false]
        rfl
  | _ =>
    rw [hcmd] at ht
    cases ht

end Timers

section Commands

variable {act : α → Caller → Script κ ω (Except Failure Unit)} {here : Node κ ω α} {absolute : Seconds}

theorem steady_openRepeat {times : Lazy ω UInt32} {infinite : Bool}
    (h : base.note? id = some (Command.beginRepeat times infinite : Command κ ω α).note) :
    Steady self base memo (openRepeat id times infinite) :=
  (steady_script _).bind fun (_, resolved) =>
    (steady_setCommand (.beginRepeat resolved _) h).bind fun _ =>
      (steady_openScope id).bind fun _ => steady_pure _

theorem steady_closeRepeat : Steady self base memo (closeRepeat : ChainRun κ ω α Flow) := by
  refine steady_closer .endRepeat fun opener n hopener => ?_
  obtain ⟨command, _, _, _⟩ := n
  cases command with
  | beginRepeat times infinite =>
    cases infinite with
    | true => exact steady_pure _
    | false =>
      have hcount (times : Lazy ω UInt32) :
          Steady self base memo (setCommand opener (.beginRepeat times false)) :=
        steady_setCommand _ hopener
      exact (steady_script _).bind fun (n, resolved) => steady_ite
        ((hcount { resolved with cached := some (n - 1) }).bind fun _ => steady_pure _)
        ((hcount times.reset).bind fun _ => steady_pure _)
  | _ => exact steady_mismatch _ _

theorem steady_closeWhile : Steady self base memo (closeWhile : ChainRun κ ω α Flow) := by
  refine steady_closer .endWhile fun opener n _ => ?_
  cases n.command with
  | beginWhile holds => exact (steady_script _).bind fun _ => steady_ite (steady_pure _) (steady_pure _)
  | _ => exact steady_mismatch _ _

theorem steady_closeInterval : Steady self base memo (closeInterval : ChainRun κ ω α Flow) := by
  refine steady_closer .endInterval fun opener n _ => ?_
  cases n.command with
  | beginInterval seconds => exact steady_pure _
  | _ => exact steady_mismatch _ _

theorem departs_awaitFrames {frames : Lazy ω UInt32}
    (h : base.note? id = some (Command.waitFrames frames : Command κ ω α).note) :
    Departs self base .frames (awaitFrames id frames) := by
  refine (steady_script _).lead fun (_, resolved) =>
    (steady_setCommand (.waitFrames resolved) h).lead fun _ => steady_scratch.lead fun s => ?_
  have hcount (waited : UInt32) : Departs self base .frames (do
      modifyScratch fun s => { s with framesWaited := some waited }
      return Flow.suspend) :=
    (steady_modifyScratch fun _ hs => hs.setFrames (some waited) ▸ .frames waited).lead
      fun _ => departs_suspend
  cases s.framesWaited with
  | none => exact hcount 0
  | some waited =>
    exact departs_ite (departs_modifyScratch (fun _ hs => hs.setFrames none) _) (hcount _)

theorem departs_awaitMessageWhere {key : String} {condition : Lazy ω Condition}
    (h : base.note? id = some (Command.waitForMessageWhere key condition : Command κ ω α).note) :
    Departs self base (.message key) (awaitMessageWhere id key condition) :=
  (steady_script _).lead fun (_, resolved) =>
    (steady_setCommand (.waitForMessageWhere key resolved) h).lead fun _ =>
      departs_awaitMessage key _

theorem departs_awaitAll {set : MemberSet κ ω}
    (h : base.note? id = some (Command.waitForAll set : Command κ ω α).note) :
    Departs self base .members (awaitAll self id set) := by
  have hids : Steady self base .members (awaited self id set Command.waitForAll) :=
    steady_awaited fun _ => h
  exact hids.lead fun _ => (steady_script _).lead fun _ => departs_endAwait _

theorem departs_awaitFirst {set : MemberSet κ ω}
    (h : base.note? id = some (Command.waitForFirst set : Command κ ω α).note) :
    Departs self base .members (awaitFirst self id set) := by
  have hids : Steady self base .members (awaited self id set Command.waitForFirst) :=
    steady_awaited fun _ => h
  refine hids.lead fun ids => (steady_script _).lead fun _ => ?_
  exact departs_ite ((steady_finishEach ids).lead fun _ => departs_endAwait _) (departs_endAwait _)

theorem steady_attach {source : Source κ ω} {target : Option (Lazy ω EntityId)}
    (h : base.note? id = some (Command.addComponent source target : Command κ ω α).note) :
    Steady self base memo (attach self id source target) :=
  (steady_resolveTarget target).bind fun (_, target) =>
    (steady_setCommand (.addComponent source target) h).bind fun _ =>
      (steady_produce source target h).bind fun _ => (steady_demand _).bind fun _ => steady_pure _

theorem steady_detach {selector : Lazy ω Selector} {target : Option (Lazy ω EntityId)}
    (h : base.note? id = some (Command.removeComponent selector target : Command κ ω α).note) :
    Steady self base memo (detach self id selector target) :=
  (steady_resolveTarget target).bind fun (_, target) =>
    (steady_setCommand (.removeComponent selector target) h).bind fun _ =>
      (steady_script _).bind fun (_, resolved) =>
        (steady_setCommand (.removeComponent resolved target) h).bind fun _ =>
          (steady_pick _ _).bind fun _ => (steady_demand _).bind fun _ => steady_pure _

theorem steady_removeWhere {condition : Lazy ω Condition}
    (h : base.note? id = some (Command.removeEntitiesWhere condition : Command κ ω α).note) :
    Steady self base memo (removeWhere id condition) :=
  (steady_script _).bind fun (_, resolved) =>
    (steady_setCommand (.removeEntitiesWhere resolved) h).bind fun _ =>
      (steady_script _).bind fun _ => (steady_removeEach _).bind fun _ => steady_pure _

theorem steady_removeTarget {target : Option (Lazy ω EntityId)}
    (h : base.note? id = some (Command.removeEntity target : Command κ ω α).note) :
    Steady self base memo (removeTarget self id target) :=
  (steady_resolveTarget target).bind fun (_, target) =>
    (steady_setCommand (.removeEntity target) h).bind fun _ =>
      (steady_demand _).bind fun _ => steady_pure _

theorem steady_send {key : String} {data : Lazy ω Json}
    (h : base.note? id = some (Command.sendMessage key data : Command κ ω α).note) :
    Steady self base memo (send id key data) :=
  (steady_script _).bind fun (_, resolved) =>
    (steady_setCommand (.sendMessage key resolved) h).bind fun _ =>
      (steady_script _).bind fun _ => steady_pure _

/-- Every command but those that wait for a time. -/
theorem departs_dispatch (hn : base.nodes[id]? = some here) (ht : here.command.note.memo ≠ .start)
    (hs : here.command.note.memo.Suits base.scratch) :
    Triple self (· = base) (dispatch act self absolute id)
      (fun flow c => Tidy base here.command.note.memo c ∧ (flow ≠ .suspend → c.scratch = {}))
      fun _ => Tidy base here.command.note.memo := by
  refine triple_at hn ?_
  have htidy : Tidy base here.command.note.memo base := ⟨rfl, hs⟩
  refine Triple.weaken ?_ fun d (hd : d = base) => (hd.symm ▸ htidy : Tidy base here.command.note.memo d)
  have hnote := note?_of_node hn
  change Departs self base here.command.note.memo _
  obtain ⟨command, _, _, _⟩ := here
  cases command with
  | beginRepeat times infinite => exact (steady_openRepeat hnote).departs
  | endRepeat => exact steady_closeRepeat.departs
  | call action => exact Steady.departs ((steady_demand _).bind fun _ => steady_pure _)
  | beginWhile holds => exact Steady.departs ((steady_openScope id).bind fun _ => steady_pure _)
  | endWhile => exact steady_closeWhile.departs
  | beginInterval seconds => exact absurd rfl ht
  | endInterval => exact steady_closeInterval.departs
  | beginIf holds =>
    exact Steady.departs ((steady_script _).bind fun _ =>
      steady_ite (steady_pure _) (steady_jumpPast _ _))
  | otherwise => exact (steady_jumpPast _ _).departs
  | endIf => exact (steady_pure _).departs
  | waitTime seconds => exact absurd rfl ht
  | addComponent source target => exact (steady_attach hnote).departs
  | waitForAll set => exact departs_awaitAll hnote
  | waitForFirst set => exact departs_awaitFirst hnote
  | waitUntil holds =>
    exact Steady.departs ((steady_script _).bind fun _ => steady_ite (steady_pure _) (steady_pure _))
  | waitFrames frames => exact departs_awaitFrames hnote
  | waitForMessage key => exact departs_awaitMessage key none
  | waitForMessageWhere key condition => exact departs_awaitMessageWhere hnote
  | removeComponent selector target => exact (steady_detach hnote).departs
  | removeEntitiesWhere condition => exact (steady_removeWhere hnote).departs
  | removeEntity target => exact (steady_removeTarget hnote).departs
  | sendMessage key data => exact (steady_send hnote).departs

end Commands

end ChainRun
end FrameChain
