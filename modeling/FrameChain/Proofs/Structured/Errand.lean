import FrameChain.Proofs.Structured.Layout

set_option autoImplicit false

/-! An errand is a command that is neither a loop nor a branch, with what it remembers from frame to
frame. A chain keeps that memory in two places, the command's parameters and the scratch of the cursor.
-/
namespace FrameChain

variable {κ ω α τ : Type}

inductive Quorum where
  | all
  | first
deriving DecidableEq, Repr

/-- A simple command and what it remembers. -/
inductive Errand (κ ω α : Type) where
  | call (action : α)
  | addComponent (source : Source κ ω) (target : Option (Lazy ω EntityId))
  | removeComponent (selector : Lazy ω Selector) (target : Option (Lazy ω EntityId))
  | removeEntitiesWhere (condition : Lazy ω Condition)
  | removeEntity (target : Option (Lazy ω EntityId))
  | sendMessage (key : String) (data : Lazy ω Json)
  | waitTime (seconds : Lazy ω Seconds) (since : Option Seconds)
  | waitFrames (frames : Lazy ω UInt32) (waited : Option UInt32)
  /-- Waits as long as the predicate holds. -/
  | waitUntil (holds : HostFun ω Bool)
  /-- The ids are those of the members once the set was resolved. -/
  | waitForMembers (quorum : Quorum) (set : MemberSet κ ω) (ids : Option (List ComponentId))
  /-- Nothing has arrived until the command listens. -/
  | waitForMessage (key : String) (condition : Option (Lazy ω Condition)) (arrived : Option Bool)

/-- How a visit to an errand ends, with what the errand remembers then. -/
inductive Visit (κ ω α : Type) where
  | finished (e : Errand κ ω α)
  | waiting (e : Errand κ ω α)
  | failed (f : Failure) (e : Errand κ ω α)

namespace Quorum

def command : Quorum → MemberSet κ ω → Command κ ω α
  | all => .waitForAll
  | first => .waitForFirst

def opcode : Quorum → Opcode
  | all => .waitForAll
  | first => .waitForFirst

theorem opcode_command (q : Quorum) (set : MemberSet κ ω) :
    (q.command set : Command κ ω α).opcode = q.opcode := by cases q <;> rfl

end Quorum

namespace Errand

def command : Errand κ ω α → Command κ ω α
  | call action => .call action
  | addComponent source target => .addComponent source target
  | removeComponent selector target => .removeComponent selector target
  | removeEntitiesWhere condition => .removeEntitiesWhere condition
  | removeEntity target => .removeEntity target
  | sendMessage key data => .sendMessage key data
  | waitTime seconds _ => .waitTime seconds
  | waitFrames frames _ => .waitFrames frames
  | waitUntil holds => .waitUntil holds
  | waitForMembers quorum set _ => quorum.command set
  | waitForMessage key none _ => .waitForMessage key
  | waitForMessage key (some condition) _ => .waitForMessageWhere key condition

def scratch : Errand κ ω α → Scratch
  | waitTime _ since => { waitStart := since }
  | waitFrames _ waited => { framesWaited := waited }
  | waitForMembers _ _ ids => { awaited := ids }
  | waitForMessage key _ (some arrived) => { messageKey := some key, arrived }
  | _ => {}

/-- The errand as the next pass finds it. A component or a set that was used up stays so. -/
def fresh : Errand κ ω α → Errand κ ω α
  | call action => call action
  | addComponent source target => addComponent source (target.map Lazy.reset)
  | removeComponent selector target => removeComponent selector.reset (target.map Lazy.reset)
  | removeEntitiesWhere condition => removeEntitiesWhere condition.reset
  | removeEntity target => removeEntity (target.map Lazy.reset)
  | sendMessage key data => sendMessage key data.reset
  | waitTime seconds _ => waitTime seconds.reset none
  | waitFrames frames _ => waitFrames frames.reset none
  | waitUntil holds => waitUntil holds
  | waitForMembers quorum set _ => waitForMembers quorum set none
  | waitForMessage key condition _ => waitForMessage key (condition.map Lazy.reset) none

theorem command_fresh (e : Errand κ ω α) : e.fresh.command = e.command.reset := by
  cases e with
  | waitForMembers quorum set ids => cases quorum <;> rfl
  | waitForMessage key condition arrived => cases condition <;> rfl
  | _ => rfl

@[simp] theorem scratch_fresh (e : Errand κ ω α) : e.fresh.scratch = {} := by cases e <;> rfl

theorem opcode_command_ne (e : Errand κ ω α) : e.command.opcode ≠ .beginRepeat := by
  cases e with
  | waitForMembers quorum set ids => cases quorum <;> nofun
  | waitForMessage key condition arrived => cases condition <;> nofun
  | _ => nofun

end Errand

namespace Errand

def targeted (self : Caller) :
    Option (Lazy ω EntityId) → Script κ ω (EntityId × Option (Lazy ω EntityId))
  | none => return (self.entity, none)
  | some target => do
    let (id, target) ← target.resolve
    return (id, some target)

def supplied : Source κ ω → Script κ ω (Option κ × Source κ ω)
  | .single component => return (component, .single none)
  | .factory f => do return (some (← .host f), .factory f)

def enlisted (owner : EntityId) : List (Member κ) → Script κ ω (Except Failure (List ComponentId))
  | [] => return .ok []
  | .fresh component :: rest => do
    match ← .request (.addComponent owner component) with
    | .ok id => return (← enlisted owner rest).map (id :: ·)
    | .error f => return .error f
  | .existing id :: rest => do return (← enlisted owner rest).map (id :: ·)

def resolved (self : Caller) (name : String) (quorum : Quorum) :
    MemberSet κ ω → Script κ ω (Except Failure (List ComponentId) × MemberSet κ ω)
  | .members (some list) => do return (← enlisted self.entity list, .members none)
  | .members none => return (.error (.componentConsumed name quorum.opcode), .members none)
  | .factory f => do return (← enlisted self.entity (← .host f), .factory f)

def dismissed : List ComponentId → Script κ ω (Except Failure Unit)
  | [] => return .ok ()
  | id :: rest => do
    if (← .scene).isDone id then dismissed rest
    else
      match ← .request (.stop id .finished) with
      | .ok () => dismissed rest
      | .error f => return .error f

def cleared : List EntityId → Script κ ω (Except Failure Unit)
  | [] => return .ok ()
  | id :: rest => do
    match ← .request (.removeEntity id) with
    | .ok () => cleared rest
    | .error f => return .error f

def closing (e : Errand κ ω α) : Except Failure Unit → Visit κ ω α
  | .ok () => .finished e
  | .error f => .failed f e

/-- Whether enough members of an awaited set are done; the others of a first are then finished. -/
def awaiting (e : Errand κ ω α) (ids : List ComponentId) : Quorum → Script κ ω (Visit κ ω α)
  | .all => do return if ids.all (← .scene).isDone then .finished e else .waiting e
  | .first => do
    if ids.any (← .scene).isDone then return e.closing (← dismissed ids)
    else return if ids.isEmpty then .finished e else .waiting e

def listening (key : String) (condition : Option (Lazy ω Condition)) (filter : Option Condition) :
    Option Bool → Script κ ω (Visit κ ω α)
  | none => do
    match ← .request (.subscribe key filter) with
    | .ok () => return .waiting (waitForMessage key condition (some false))
    | .error f => return .failed f (waitForMessage key condition none)
  | some false => return .waiting (waitForMessage key condition (some false))
  | some true => do
    Script.request (.unsubscribe key)
    return .finished (waitForMessage key condition none)

/-- What a chain with this name does when its cursor is on the errand. -/
def visit (act : α → Caller → Script κ ω (Except Failure Unit)) (self : Caller)
    (absolute : Seconds) (name : String) : Errand κ ω α → Script κ ω (Visit κ ω α)
  | call action => do return (call action).closing (← act action self)
  | addComponent source target => do
    let (entity, target) ← targeted self target
    match ← supplied source with
    | (none, source) =>
      return .failed (.componentConsumed name .addComponent) (addComponent source target)
    | (some component, source) =>
      match ← .request (.addComponent entity component) with
      | .ok _ => return .finished (addComponent source target)
      | .error f => return .failed f (addComponent source target)
  | removeComponent selector target => do
    let (entity, target) ← targeted self target
    let (chosen, selector) ← selector.resolve
    let e := removeComponent selector target
    match chosen with
    | .id component => return e.closing (← .request (.stop component .detached))
    | .name component =>
      match (← .scene).findComponent? entity component with
      | some id => return e.closing (← .request (.stop id .detached))
      | none => return .failed (.componentNameNotFound entity component) e
  | removeEntitiesWhere condition => do
    let (condition, resolved) ← condition.resolve
    let entities := (← .scene).findEntities condition
    return (removeEntitiesWhere resolved).closing (← cleared entities)
  | removeEntity target => do
    let (entity, target) ← targeted self target
    return (removeEntity target).closing (← .request (.removeEntity entity))
  | sendMessage key data => do
    let (data, resolved) ← data.resolve
    Script.request (.send key data)
    return .finished (sendMessage key resolved)
  | waitTime seconds since => do
    let (limit, seconds) ← seconds.resolve
    let start := since.getD absolute
    if absolute - start > limit then return .finished (waitTime seconds none)
    else return .waiting (waitTime seconds (some start))
  | waitFrames frames waited => do
    let (limit, frames) ← frames.resolve
    match waited with
    | none => return .waiting (waitFrames frames (some 0))
    | some n =>
      if n + 1 > limit then return .finished (waitFrames frames none)
      else return .waiting (waitFrames frames (some (n + 1)))
  | waitUntil holds => do
    if ← .host holds then return .waiting (waitUntil holds) else return .finished (waitUntil holds)
  | waitForMembers quorum set (some ids) =>
    (waitForMembers quorum set (some ids)).awaiting ids quorum
  | waitForMembers quorum set none => do
    match ← resolved self name quorum set with
    | (.ok ids, set) => (waitForMembers quorum set (some ids)).awaiting ids quorum
    | (.error f, set) => return .failed f (waitForMembers quorum set none)
  | waitForMessage key none arrived => listening key none none arrived
  | waitForMessage key (some condition) arrived => do
    let (filter, condition) ← condition.resolve
    listening key (some condition) (some filter) arrived

end Errand

namespace Visit

def flow : Visit κ ω α → Except Failure Flow
  | finished _ => .ok .advance
  | waiting _ => .ok .suspend
  | failed f _ => .error f

def errand : Visit κ ω α → Errand κ ω α
  | finished e | waiting e | failed _ e => e

def scratch : Visit κ ω α → Scratch
  | finished _ => {}
  | waiting e | failed _ e => e.scratch

end Visit

namespace ChainRun

theorem enlist_eq (owner : EntityId) (members : List (Member κ)) :
    (enlist owner members : ChainRun κ ω α _) = demand (Errand.enlisted owner members) := by
  induction members with
  | nil => rfl
  | cons m rest ih =>
    refine ext_run fun c => ?_
    cases m with
    | existing id =>
      simp only [enlist, Errand.enlisted, run_bind, ih, run_demand, Script.bind_eq, Script.bind_assoc]
      congr 1
      funext answer
      cases answer <;> rfl
    | fresh component =>
      simp only [enlist, Errand.enlisted, run_bind, ih, run_demand, Script.bind_eq, Script.bind_assoc]
      congr 1
      funext answer
      cases answer with
      | error f => rfl
      | ok id =>
        simp only [Script.bind, Script.bind_assoc]
        congr 1
        funext answer
        cases answer <;> rfl

theorem finishEach_eq (ids : List ComponentId) :
    (finishEach ids : ChainRun κ ω α Unit) = demand (Errand.dismissed ids) := by
  induction ids with
  | nil => rfl
  | cons id rest ih =>
    refine ext_run fun c => ?_
    simp only [finishEach, isDone, Errand.dismissed, run_bind, ih, run_demand, run_script,
      Script.bind_eq, Script.scene, Script.bind]
    congr 1
    funext s
    cases s.isDone id with
    | true => simp only [run_pure, Script.bind, Bool.not_true, Bool.false_eq_true, if_true, if_false,
        run_demand]
    | false =>
      simp only [run_pure, Script.bind, Bool.not_false, Bool.false_eq_true, if_true, if_false,
        run_bind, run_demand, Script.bind_assoc]
      congr 1
      funext answer
      cases answer <;> rfl

theorem removeEach_eq (ids : List EntityId) :
    (removeEach ids : ChainRun κ ω α Unit) = demand (Errand.cleared ids) := by
  induction ids with
  | nil => rfl
  | cons id rest ih =>
    refine ext_run fun c => ?_
    rw [removeEach] at ih
    simp only [removeEach, List.forM, Errand.cleared, run_bind, ih, run_demand, Script.bind_eq,
      Script.bind_assoc]
    congr 1
    funext answer
    cases answer <;> rfl

theorem run_resolveTarget (self : Caller) (target : Option (Lazy ω EntityId)) (c : Chain κ ω α) :
    (resolveTarget self target).run c =
      (Errand.targeted self target).bind fun answer => .done (.ok answer, c) := by
  cases target with
  | none => rfl
  | some target =>
    simp only [resolveTarget, Errand.targeted, run_bind, run_script, Script.bind_eq,
      Script.bind_assoc, Script.bind, run_pure, Script.pure_eq]

section Visit

variable (c : Chain κ ω α) (id : NodeId)

def placed (command : Command κ ω α) (scratch : Scratch) : Chain κ ω α :=
  { c.modifyNode id fun node => { node with command } with scratch }

variable {c id} in
theorem getElem?_placed {here : Node κ ω α} (hn : c.nodes[id]? = some here) (command : Command κ ω α)
    (scratch : Scratch) : (placed c id command scratch).nodes[id]? = some { here with command } :=
  Chain.getElem?_modifyNode hn _

variable {c id} in
theorem placed_same {here : Node κ ω α} (hn : c.nodes[id]? = some here) :
    placed c id here.command c.scratch = c :=
  congrArg (fun d : Chain κ ω α => { d with scratch := c.scratch }) (Chain.modifyNode_same hn rfl)

theorem placed_placed (command command' : Command κ ω α) (scratch scratch' : Scratch) :
    placed (placed c id command scratch) id command' scratch' = placed c id command' scratch' := by
  have hnodes : (c.nodes.modify id fun node => { node with command }).modify id
      (fun node => { node with command := command' }) =
        c.nodes.modify id fun node => { node with command := command' } := by
    refine Array.ext_getElem? fun i => ?_
    simp only [Array.getElem?_modify]
    split
    · rw [Option.map_map]
      rfl
    · rfl
  rw [placed, placed, placed, Chain.modifyNode, Chain.modifyNode, Chain.modifyNode, hnodes]

variable {c id} in
theorem run_node_placed {here : Node κ ω α} (hn : c.nodes[id]? = some here) (command : Command κ ω α)
    (scratch : Scratch) : (node id).run (placed c id command scratch) =
      .done (.ok { here with command }, placed c id command scratch) :=
  run_node_of (getElem?_placed hn command scratch)

variable (command : Command κ ω α) (scratch : Scratch)

theorem run_setCommand_placed (command' : Command κ ω α) :
    (setCommand id command').run (placed c id command scratch) =
      .done (.ok (), placed c id command' scratch) :=
  congrArg (fun d => Script.done (Except.ok (), d))
    (placed_placed c id command command' scratch scratch)

theorem run_scratch_placed :
    ChainRun.scratch.run (placed c id command scratch) =
      .done (.ok scratch, placed c id command scratch) := rfl

theorem run_consumed_placed (opcode : Opcode) :
    (consumed opcode : ChainRun κ ω α τ).run (placed c id command scratch) =
      .done (.error (.componentConsumed c.name opcode),
        placed c id command scratch) := rfl

theorem run_waitStart_placed (absolute : Seconds) :
    (waitStart absolute).run (placed c id command scratch) =
      .done (.ok (scratch.waitStart.getD absolute), placed c id command
        { scratch with waitStart := some (scratch.waitStart.getD absolute) }) := rfl

def visited (v : Visit κ ω α) : Script κ ω (Except Failure Flow × Chain κ ω α) :=
  .done (v.flow, placed c id v.errand.command v.scratch)

theorem run_awaitMessage_placed (key : String) (before condition : Option (Lazy ω Condition))
    (filter : Option Condition) (arrived : Option Bool) :
    (awaitMessage key filter).run (placed c id
        (Errand.waitForMessage key condition arrived).command
        (Errand.scratch (.waitForMessage key before arrived : Errand κ ω α))) =
      (Errand.listening key condition filter arrived).bind (visited c id) := by
  cases arrived with
  | none =>
    simp only [awaitMessage, Errand.listening, Errand.scratch, run_bind, run_scratch_placed,
      Script.bind, Option.isNone_none, if_true, run_demand, Script.bind_eq, Script.bind_assoc]
    congr 1
    funext answer
    cases answer <;> cases condition <;> rfl
  | some arrived => cases arrived <;> cases condition <;> rfl

def enough (quorum : Quorum) (ids : List ComponentId) : ChainRun κ ω α Flow :=
  match quorum with
  | .all => do
    let s ← script .scene
    endAwait (ids.all s.isDone)
  | .first => do
    let s ← script .scene
    if ids.any s.isDone then finishEach ids
    endAwait (ids.isEmpty || ids.any s.isDone)

theorem run_awaiting_placed (quorum : Quorum) (set : MemberSet κ ω) (ids : List ComponentId) :
    (enough quorum ids).run
      (placed c id (quorum.command set) { awaited := some ids }) =
      ((Errand.waitForMembers quorum set (some ids)).awaiting ids quorum).bind
        (visited c id) := by
  cases quorum with
  | all =>
    simp only [enough, Errand.awaiting, run_bind, run_script, Script.scene, Script.bind,
      Script.bind_eq]
    congr 1
    funext s
    cases ids.all s.isDone <;> rfl
  | first =>
    simp only [enough, Errand.awaiting, run_bind, run_script, Script.scene, Script.bind,
      Script.bind_eq]
    congr 1
    funext s
    cases ids.any s.isDone with
    | true =>
      simp only [if_true, run_bind, finishEach_eq, run_demand, Script.bind_assoc, Script.bind,
        Bool.or_true]
      congr 1
      funext answer
      cases answer <;> rfl
    | false => cases ids.isEmpty <;> rfl

theorem run_awaited_placed (self : Caller) (quorum : Quorum) (set : MemberSet κ ω) :
    (awaited self id set quorum.command).run
        (placed c id (quorum.command set) {}) =
      (Errand.resolved self c.name quorum set).bind fun
        | (.ok ids, set) => .done (.ok ids,
            placed c id (quorum.command set) { awaited := some ids })
        | (.error f, set) => .done (.error f,
            placed c id (quorum.command set) {}) := by
  cases set with
  | members list =>
    cases list with
    | none =>
      simp only [awaited, Errand.resolved, run_bind, run_scratch_placed, Script.bind,
        run_consumed_placed, Quorum.opcode_command, Script.pure_eq]
    | some list =>
      simp only [awaited, Errand.resolved, run_bind, run_scratch_placed, Script.bind,
        run_setCommand_placed, run_pure, enlist_eq, run_demand, Script.bind_eq, Script.bind_assoc,
        Script.pure_eq]
      congr 1
      funext answer
      cases answer <;> rfl
  | factory f =>
    simp only [awaited, Errand.resolved, run_bind, run_scratch_placed, Script.bind, run_script,
      enlist_eq, run_demand, Script.bind_eq, Script.bind_assoc, Script.pure_eq]
    congr 1
    funext members
    congr 1
    funext answer
    cases answer <;> rfl

section Commands

variable {c id} {here : Node κ ω α} (hn : c.nodes[id]? = some here)
  (act : α → Caller → Script κ ω (Except Failure Unit)) (self : Caller) (absolute : Seconds)

variable (c id) in
def Executes (e : Errand κ ω α) : Prop :=
  (dispatch act self absolute id).run (placed c id e.command e.scratch) =
    (e.visit act self absolute c.name).bind (visited c id)

theorem executes_closing {e : Errand κ ω α} (he : e.scratch = {})
    (p : Script κ ω (Except Failure Unit)) :
    (do demand p; return Flow.advance : ChainRun κ ω α Flow).run (placed c id e.command {}) =
      p.bind fun answer => (Script.done (e.closing answer)).bind (visited c id) := by
  simp only [run_bind, run_demand, Script.bind_assoc]
  congr 1
  funext answer
  cases answer with
  | ok u => rfl
  | error f =>
    simp only [Script.bind, visited, Errand.closing, Visit.flow, Visit.errand, Visit.scratch, he]

include hn

theorem executes_call (action : α) : Executes c id act self absolute (.call action) := by
  unfold Executes
  simp only [dispatch, Errand.visit, Errand.command, run_bind, run_node_placed hn, Script.bind,
    Script.bind_eq, Script.bind_assoc, Script.pure_eq]
  refine (run_bind _ _ _).symm.trans ?_
  exact executes_closing (e := .call action) rfl (act action self)

theorem executes_addComponent (source : Source κ ω) (target : Option (Lazy ω EntityId)) :
    Executes c id act self absolute (.addComponent source target) := by
  unfold Executes
  simp only [dispatch, attach, Errand.visit, Errand.command, run_bind, run_node_placed hn,
    Script.bind, run_resolveTarget, run_setCommand_placed, Script.bind_eq, Script.bind_assoc]
  congr 1
  refine funext ?_
  rintro ⟨entity, target⟩
  cases source with
  | single component =>
    cases component with
    | none =>
      simp only [produce, Errand.supplied, run_consumed_placed, Script.bind, Script.pure_eq]
      rfl
    | some component =>
      simp only [produce, Errand.supplied, run_bind, run_setCommand_placed, run_pure, run_demand,
        Script.bind, Script.bind_assoc, Script.pure_eq]
      congr 1
      funext answer
      cases answer <;> rfl
  | factory f =>
    simp only [produce, Errand.supplied, run_script, Script.bind_eq, Script.bind, Script.bind_assoc,
      Script.pure_eq, run_demand]
    congr 1
    funext component
    congr 1
    funext answer
    cases answer <;> rfl

theorem executes_removeComponent (selector : Lazy ω Selector) (target : Option (Lazy ω EntityId)) :
    Executes c id act self absolute (.removeComponent selector target) := by
  unfold Executes
  simp only [dispatch, detach, Errand.visit, Errand.command, run_bind, run_node_placed hn,
    Script.bind, run_resolveTarget, run_setCommand_placed, run_script, Script.bind_eq,
    Script.bind_assoc]
  congr 1
  refine funext ?_
  rintro ⟨entity, target⟩
  congr 1
  refine funext ?_
  rintro ⟨chosen, selector⟩
  cases chosen with
  | id component =>
    simp only [pick, run_pure, Script.bind]
    refine (run_bind _ _ _).symm.trans ?_
    exact executes_closing (e := .removeComponent selector target) rfl (.request (.stop component .detached))
  | name component =>
    simp only [pick, run_bind, run_script, Script.scene, Script.bind]
    congr 1
    funext s
    cases s.findComponent? entity component with
    | none => rfl
    | some found =>
      simp only [run_pure, Script.bind]
      refine (run_bind _ _ _).symm.trans ?_
      exact executes_closing (e := .removeComponent selector target) rfl (.request (.stop found .detached))

theorem executes_removeEntitiesWhere (condition : Lazy ω Condition) :
    Executes c id act self absolute (.removeEntitiesWhere condition) := by
  unfold Executes
  simp only [dispatch, removeWhere, Errand.visit, Errand.command, run_bind, run_node_placed hn,
    Script.bind, run_script, run_setCommand_placed, Script.bind_eq, Script.bind_assoc,
    Script.scene, removeEach_eq, Script.pure_eq]
  congr 1
  refine funext ?_
  rintro ⟨condition, resolved⟩
  congr 1
  funext s
  refine (run_bind _ _ _).symm.trans ?_
  exact executes_closing (e := .removeEntitiesWhere resolved) rfl (Errand.cleared (s.findEntities condition))

theorem executes_removeEntity (target : Option (Lazy ω EntityId)) :
    Executes c id act self absolute (.removeEntity target) := by
  unfold Executes
  simp only [dispatch, removeTarget, Errand.visit, Errand.command, run_bind, run_node_placed hn,
    Script.bind, run_resolveTarget, run_setCommand_placed, Script.bind_eq, Script.bind_assoc,
    Script.pure_eq]
  congr 1
  refine funext ?_
  rintro ⟨entity, target⟩
  refine (run_bind _ _ _).symm.trans ?_
  exact executes_closing (e := .removeEntity target) rfl (.request (.removeEntity entity))

theorem executes_sendMessage (key : String) (data : Lazy ω Json) :
    Executes c id act self absolute (.sendMessage key data) := by
  unfold Executes
  simp only [dispatch, send, Errand.visit, Errand.command, run_bind, run_node_placed hn,
    Script.bind, run_script, run_setCommand_placed, Script.bind_eq, Script.bind_assoc,
    Script.pure_eq, run_pure]
  rfl

theorem executes_waitTime (seconds : Lazy ω Seconds) (since : Option Seconds) :
    Executes c id act self absolute (.waitTime seconds since) := by
  change (dispatch act self absolute id).run
    (placed c id (.waitTime seconds) { waitStart := since }) = _
  simp only [dispatch, awaitTime, Errand.visit, run_bind, run_node_placed hn,
    Script.bind, run_script, run_setCommand_placed, run_waitStart_placed, Script.bind_eq,
    Script.bind_assoc]
  congr 1
  funext answer
  by_cases h : absolute - since.getD absolute > answer.1
  · rw [if_pos h, if_pos h]
    rfl
  · rw [if_neg h, if_neg h]
    rfl

theorem executes_waitFrames (frames : Lazy ω UInt32) (waited : Option UInt32) :
    Executes c id act self absolute (.waitFrames frames waited) := by
  unfold Executes
  simp only [dispatch, awaitFrames, Errand.visit, Errand.command, run_bind, run_node_placed hn,
    Script.bind, run_script, run_setCommand_placed, run_scratch_placed, Script.bind_eq,
    Script.bind_assoc]
  congr 1
  funext answer
  cases waited with
  | none => rfl
  | some n =>
    by_cases h : n + 1 > answer.1
    · simp only [Errand.scratch, if_pos h]
      rfl
    · simp only [Errand.scratch, if_neg h]
      rfl

theorem executes_waitUntil (holds : HostFun ω Bool) :
    Executes c id act self absolute (.waitUntil holds) := by
  unfold Executes
  simp only [dispatch, Errand.visit, Errand.command, run_bind, run_node_placed hn,
    Script.bind, run_script, Script.bind_eq, Script.bind_assoc]
  congr 1
  funext answer
  cases answer <;> rfl

theorem executes_waitForMembers (quorum : Quorum) (set : MemberSet κ ω)
    (ids : Option (List ComponentId)) :
    Executes c id act self absolute (.waitForMembers quorum set ids) := by
  have hd : (dispatch act self absolute id).run (placed c id
      (quorum.command set) { awaited := ids }) =
      (awaited self id set quorum.command >>= enough quorum).run
        (placed c id (quorum.command set) { awaited := ids }) := by
    cases quorum <;> rw [dispatch, run_bind, run_node_placed hn] <;> rfl
  refine hd.trans ?_
  rw [run_bind]
  cases ids with
  | some ids => exact run_awaiting_placed c id quorum set ids
  | none =>
    simp only [run_awaited_placed, Errand.visit, Script.bind_eq, Script.bind_assoc]
    congr 1
    refine funext ?_
    rintro ⟨answer, set⟩
    cases answer with
    | ok ids => exact run_awaiting_placed c id quorum set ids
    | error f => rfl

theorem executes_waitForMessage (key : String) (condition : Option (Lazy ω Condition))
    (arrived : Option Bool) :
    Executes c id act self absolute (.waitForMessage key condition arrived) := by
  unfold Executes
  cases condition with
  | none =>
    simp only [dispatch, Errand.visit, Errand.command, run_bind, run_node_placed hn, Script.bind]
    exact run_awaitMessage_placed c id key none none none arrived
  | some condition =>
    simp only [dispatch, awaitMessageWhere, Errand.visit, Errand.command, run_bind, run_node_placed hn, Script.bind,
      run_script, run_setCommand_placed, Script.bind_eq, Script.bind_assoc]
    congr 1
    refine funext ?_
    rintro ⟨filter, condition⟩
    exact run_awaitMessage_placed c id key _ (some condition) (some filter) arrived

theorem run_dispatch_errand (e : Errand κ ω α) : Executes c id act self absolute e := by
  cases e with
  | call action => exact executes_call hn act self absolute action
  | addComponent source target => exact executes_addComponent hn act self absolute source target
  | removeComponent selector target => exact executes_removeComponent hn act self absolute selector target
  | removeEntitiesWhere condition => exact executes_removeEntitiesWhere hn act self absolute condition
  | removeEntity target => exact executes_removeEntity hn act self absolute target
  | sendMessage key data => exact executes_sendMessage hn act self absolute key data
  | waitTime seconds since => exact executes_waitTime hn act self absolute seconds since
  | waitFrames frames waited => exact executes_waitFrames hn act self absolute frames waited
  | waitUntil holds => exact executes_waitUntil hn act self absolute holds
  | waitForMembers quorum set ids => exact executes_waitForMembers hn act self absolute quorum set ids
  | waitForMessage key condition arrived =>
    exact executes_waitForMessage hn act self absolute key condition arrived

end Commands

variable {c id} in
theorem run_dispatch_of_errand {here : Node κ ω α} (hn : c.nodes[id]? = some here)
    (act : α → Caller → Script κ ω (Except Failure Unit)) (self : Caller) (absolute : Seconds)
    {e : Errand κ ω α} (hc : here.command = e.command) (hs : c.scratch = e.scratch) :
    (dispatch act self absolute id).run c =
      (e.visit act self absolute c.name).bind (visited c id) := by
  have h := run_dispatch_errand hn act self absolute e
  rwa [Executes, ← hc, ← hs, placed_same hn] at h

end Visit

end ChainRun
end FrameChain
