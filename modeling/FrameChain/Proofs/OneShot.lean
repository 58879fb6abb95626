import FrameChain.Proofs.Chain.Unfolding

set_option autoImplicit false

namespace FrameChain

open Chain ChainRun

variable {κ ω α : Type}

def Chain.Stocked (c : Chain κ ω α) (id : NodeId) (component : κ) : Prop :=
  ∃ target, c.command? id = some (.addComponent (.single (some component)) target)

def Chain.Spent (c : Chain κ ω α) (id : NodeId) : Prop :=
  ∃ target, c.command? id = some (.addComponent (.single none) target)

def Errand.Aims (self : Caller) (target : Option (Lazy ω EntityId)) (w : ω) (entity : EntityId) : Prop :=
  target.elim (entity = self.entity) fun lazy => (lazy.value w).1 = .ok entity

def Chain.Aims (c : Chain κ ω α) (self : Caller) (id : NodeId) (w : ω) (entity : EntityId) : Prop :=
  ∃ source target, c.command? id = some (.addComponent source target) ∧
    Errand.Aims self target w entity

namespace Errand

variable [Named κ] {act : α → Caller → Script κ ω (Except Failure Unit)} {self : Caller}
  {absolute : Seconds} {name : String} {σ σ' : Setting κ ω} {target : Option (Lazy ω EntityId)}
  {v : Visit κ ω α}

omit [Named κ] in
theorem eq_addComponent {e : Errand κ ω α} {source : Source κ ω}
    (h : e.command = .addComponent source target) : e = addComponent source target := by
  cases e with
  | addComponent => cases h; rfl
  | waitForMembers quorum => cases quorum <;> cases h
  | waitForMessage key condition => cases condition <;> cases h
  | _ => cases h

theorem aims_of_targeted {entity : EntityId} {target' : Option (Lazy ω EntityId)}
    (hr : (targeted self target).run self σ = (.ok (entity, target'), σ')) :
    Aims self target σ.world entity ∧ σ'.scene = σ.scene := by
  cases target with
  | none =>
    cases hr
    exact ⟨rfl, rfl⟩
  | some lazy =>
    obtain ⟨answer, σ₁, hresolve, hend⟩ := Script.exists_of_bind hr
    cases hend
    rw [outcome_resolve] at hresolve
    cases hv : lazy.value σ.world with
    | mk outcome w =>
      rw [hv] at hresolve
      cases outcome with
      | error crash => cases hresolve
      | ok a =>
        cases hresolve
        exact ⟨by rw [Aims, Option.elim_some, hv], rfl⟩

theorem visit_stocked {component : κ}
    (hr : ((addComponent (.single (some component)) target).visit act self absolute name).run self σ =
      (.ok v, σ')) : ∃ entity target', Aims self target σ.world entity ∧
        σ'.scene = (σ.scene.addComponent entity component).2 ∧
          v = match (σ.scene.addComponent entity component).1 with
            | .ok _ => .finished (addComponent (.single none) target')
            | .error f => .failed f (addComponent (.single none) target') := by
  obtain ⟨⟨entity, target'⟩, σ₁, htarget, hend⟩ := Script.exists_of_bind hr
  obtain ⟨haims, hscene⟩ := aims_of_targeted htarget
  refine ⟨entity, target', haims, ?_⟩
  rw [← hscene]
  obtain ⟨reply, σ₂, hrequest, hend⟩ := Script.exists_of_bind
    (p := .request (.addComponent entity component)) hend
  rw [Script.run_request] at hrequest
  cases hrequest
  cases hreply : (σ₁.scene.addComponent entity component).1 with
  | ok id =>
    change (Request.answer self σ₁.scene (.addComponent entity component)).1 = _ at hreply
    rw [hreply] at hend
    cases hend
    exact ⟨rfl, rfl⟩
  | error f =>
    change (Request.answer self σ₁.scene (.addComponent entity component)).1 = _ at hreply
    rw [hreply] at hend
    cases hend
    exact ⟨rfl, rfl⟩

theorem visit_spent
    (hr : ((addComponent (.single none) target).visit act self absolute name).run self σ =
      (.ok v, σ')) : ∃ target', σ'.scene = σ.scene ∧
        v = .failed (.componentConsumed name .addComponent) (addComponent (.single none) target') := by
  obtain ⟨⟨entity, target'⟩, σ₁, htarget, hend⟩ := Script.exists_of_bind hr
  cases hend
  exact ⟨target', (aims_of_targeted htarget).2, rfl⟩

end Errand

variable [Named κ]

inductive Round.HandsOver (r : Round κ ω α) (caller : Caller) (id : NodeId) (component : κ) : Prop
  | attached {entity : EntityId} (runs : r.Runs caller id)
      (aims : r.chain.Aims caller id (checked r.chain r.setting).world entity)
      (there : (r.setting.scene.entity? entity).isSome) (answer : r.answer = .ok true)
      (scene : r.left.scene = (r.setting.scene.addComponent entity component).2)
  | lost {entity : EntityId} (runs : r.Runs caller id)
      (aims : r.chain.Aims caller id (checked r.chain r.setting).world entity)
      (missing : r.setting.scene.entity? entity = none)
      (answer : r.answer = .error (.entityNotFound entity))
      (scene : r.left.scene = r.setting.scene)

structure Round.Refused (r : Round κ ω α) : Prop where
  answer : r.answer = .error (.componentConsumed r.chain.name .addComponent)
  scene : r.left.scene = r.setting.scene

section Rounds

variable {act : α → Caller → Script κ ω (Except Failure Unit)} {caller : Caller} {r : Round κ ω α}
  {id : NodeId} {here : Node κ ω α} {component : κ}

omit [Named κ] in
theorem spent_turned {c : Chain κ ω α} (hn : c.nodes[id]? = some here)
    {target : Option (Lazy ω EntityId)} {v : Visit κ ω α}
    (hv : v.errand = .addComponent (.single none) target) : (v.turned c id).2.Spent id := by
  have h := v.command?_turned hn
  rw [hv] at h
  exact h.elim (fun h => ⟨_, h⟩) fun h => ⟨_, h⟩

theorem Round.Turns.handsOver (h : r.Turns act caller id here) (hneat : r.chain.Neat)
    (hs : r.chain.Stocked id component) : r.HandsOver caller id component ∧ r.after.Spent id := by
  obtain ⟨target, hs⟩ := hs
  have hcmd : here.command = .addComponent (.single (some component)) target :=
    Option.some.inj ((command?_of_node h.node).symm.trans hs)
  obtain ⟨e, v, hc, -, hr, hturned⟩ := h.exists_visit hneat (by rw [hcmd]; rfl)
  obtain rfl := Errand.eq_addComponent (hc.trans hcmd)
  obtain ⟨entity, target', haims, hscene, hv⟩ := Errand.visit_stocked hr
  have haims : r.chain.Aims caller id (checked r.chain r.setting).world entity := ⟨_, _, hs, haims⟩
  change r.left.scene = (r.setting.scene.addComponent entity component).2 at hscene
  change v = match (r.setting.scene.addComponent entity component).1 with
    | .ok _ => _
    | .error f => _ at hv
  cases he : r.setting.scene.entity? entity with
  | some e =>
    simp only [Scene.addComponent, he] at hv
    subst hv
    have hspent := spent_turned h.node (v := .finished (.addComponent (.single none) target')) rfl
    rw [hturned] at hspent
    exact ⟨.attached h.toRuns haims (by rw [he]; rfl) (congrArg Prod.fst hturned).symm hscene, hspent⟩
  | none =>
    simp only [Scene.addComponent, he] at hv hscene
    subst hv
    have hspent := spent_turned h.node
      (v := .failed (.entityNotFound entity) (.addComponent (.single none) target')) rfl
    rw [hturned] at hspent
    exact ⟨.lost h.toRuns haims he (congrArg Prod.fst hturned).symm hscene, hspent⟩

theorem Round.Turns.refused (h : r.Turns act caller id here) (hneat : r.chain.Neat)
    (hs : r.chain.Spent id) : r.Refused ∧ r.after.Spent id := by
  obtain ⟨target, hs⟩ := hs
  have hcmd : here.command = .addComponent (.single none) target :=
    Option.some.inj ((command?_of_node h.node).symm.trans hs)
  obtain ⟨e, v, hc, -, hr, hturned⟩ := h.exists_visit hneat (by rw [hcmd]; rfl)
  obtain rfl := Errand.eq_addComponent (hc.trans hcmd)
  obtain ⟨target', hscene, rfl⟩ := Errand.visit_spent hr
  have hspent := spent_turned h.node
    (v := .failed (.componentConsumed r.chain.name .addComponent) (.addComponent (.single none) target')) rfl
  rw [hturned] at hspent
  exact ⟨⟨(congrArg Prod.fst hturned).symm, hscene⟩, hspent⟩

end Rounds

/-- What became of the component: the command has it and was never run, or the first round that ran the
command gave it away and all later ones were refused. -/
inductive OneShot (caller : Caller) (id : NodeId) (component : κ) (rounds : List (Round κ ω α))
    (c : Chain κ ω α) : Prop
  | kept (idle : ∀ r ∈ rounds, ¬ r.Runs caller id) (stocked : c.Stocked id component)
  | given (before after : List (Round κ ω α)) {r : Round κ ω α} (split : rounds = before ++ r :: after)
      (idle : ∀ q ∈ before, ¬ q.Runs caller id) (gives : r.HandsOver caller id component)
      (later : ∀ q ∈ after, q.Runs caller id → q.Refused) (spent : c.Spent id)

section Histories

variable {act : α → Caller → Script κ ω (Except Failure Unit)} {caller : Caller}
  {rounds : List (Round κ ω α)} {c d : Chain κ ω α} {r : Round κ ω α} {id : NodeId} {component : κ}

omit [Named κ] in
theorem Chain.Stocked.not_repeat (h : c.Stocked id component) : c.opcode? id ≠ some .beginRepeat := by
  obtain ⟨target, h⟩ := h
  rw [opcode?_eq, h]
  rintro ⟨⟩

omit [Named κ] in
theorem Chain.Spent.not_repeat (h : c.Spent id) : c.opcode? id ≠ some .beginRepeat := by
  obtain ⟨target, h⟩ := h
  rw [opcode?_eq, h]
  rintro ⟨⟩

theorem OneShot.of_command (h : OneShot caller id component rounds c) (hd : d.command? id = c.command? id) :
    OneShot caller id component rounds d := by
  cases h with
  | kept idle stocked => exact .kept idle (by rwa [Stocked, hd])
  | given before after split idle gives later spent =>
    exact .given before after split idle gives later (by rwa [Spent, hd])

theorem OneShot.round (h : OneShot caller id component rounds r.chain) (hneat : r.chain.Neat)
    (hr : r.Happens act caller) : OneShot caller id component (rounds ++ [r]) r.after := by
  by_cases hid : r.Runs caller id
  · obtain ⟨here, ht⟩ := hid.turns hr
    cases h with
    | kept idle stocked =>
      obtain ⟨gives, spent⟩ := ht.handsOver hneat stocked
      exact .given rounds [] rfl idle gives (fun q hq => absurd hq List.not_mem_nil) spent
    | @given before after first split idle gives later spent =>
      obtain ⟨hrefused, hspent⟩ := ht.refused hneat spent
      refine .given before (after ++ [r]) (by rw [split, List.append_assoc]; rfl) idle gives
        (fun q hq hruns => ?_) hspent
      rcases List.mem_append.mp hq with hq | hq
      · exact later q hq hruns
      · obtain rfl := List.mem_singleton.mp hq
        exact hrefused
  · cases h with
    | kept idle stocked =>
      refine .kept (fun q hq => ?_)
        (by rwa [Stocked, hr.elsewhere hneat hid stocked.not_repeat])
      rcases List.mem_append.mp hq with hq | hq
      · exact idle q hq
      · obtain rfl := List.mem_singleton.mp hq
        exact hid
    | @given before after first split idle gives later spent =>
      refine .given before (after ++ [r]) (by rw [split, List.append_assoc]; rfl) idle gives
        (fun q hq hruns => ?_) (by rwa [Spent, hr.elsewhere hneat hid spent.not_repeat])
      rcases List.mem_append.mp hq with hq | hq
      · exact later q hq hruns
      · obtain rfl := List.mem_singleton.mp hq
        exact absurd hruns hid

end Histories

/-- The first visit to a command that has one component to attach gives the component away. If its entity
is there the component is attached and the chain goes on, otherwise the visit fails and the component is
lost. In either case every later visit, and no earlier one, is refused for want of a component, and changes
nothing in the scene. -/
theorem one_shot_history (act : α → Caller → Script κ ω (Except Failure Unit)) {caller : Caller}
    {built c : Chain κ ω α} {rounds : List (Round κ ω α)} {σ : Setting κ ω} {now : Option Seconds}
    {id : NodeId} {component : κ} (hb : Lived act built) (hs : built.Stocked id component)
    (h : Unfolds act caller built rounds c σ now) : OneShot caller id component rounds c :=
  (h.along hb.neat (.kept (fun _ hr => absurd hr List.not_mem_nil) hs)
    (fun hone _ _ hbides => hone.of_command (congrFun hbides.commands id))
    fun _ hone hneat hr => hone.round hneat hr).2

/-- A chain with one component for an entity that is not there. -/
def gift : Chain Probe Nat Unit :=
  Chain.append { name := "gift" } (.addComponent (.single (some {})) (some ⟨.value ⟨99⟩, none⟩))

def giver : Setting Probe Nat :=
  ⟨((({} : Scene Probe).addEntity "host").2.addComponent ⟨1⟩ {}).2, 0⟩

def noAction (_ : Unit) (_ : Caller) : Script Probe Nat (Except Failure Unit) := .done (.ok ())

/-- Two steps of the chain: the component is given away in the first, and the second is refused. -/
theorem one_shot_history_gift : ∃ rounds c σ, Unfolds noAction ⟨⟨1⟩, ⟨1⟩⟩ gift rounds c σ none ∧
    gift.Stocked 0 {} ∧ ∃ before r after, rounds = before ++ r :: after ∧
      r.HandsOver ⟨⟨1⟩, ⟨1⟩⟩ 0 {} ∧ c.Spent 0 := by
  have hsteps : ∃ c c' σ σ',
      (Chain.behaviour noAction 3 (.update 1 1) ⟨⟨1⟩, ⟨1⟩⟩ gift).run ⟨⟨1⟩, ⟨1⟩⟩ giver =
          (.ok (.error (.entityNotFound ⟨99⟩), c), σ) ∧
        (Chain.behaviour noAction 3 (.update 1 2) ⟨⟨1⟩, ⟨1⟩⟩ c).run ⟨⟨1⟩, ⟨1⟩⟩ σ =
          (.ok (.error (.componentConsumed "gift" .addComponent), c'), σ') ∧ c'.Spent 0 :=
    ⟨_, _, _, _, rfl, rfl, _, rfl⟩
  obtain ⟨c, c', σ, σ', hfirst, hsecond, target, hspent⟩ := hsteps
  obtain ⟨first, hfirst⟩ := (Unfolds.built giver).update hfirst
  obtain ⟨second, hsecond⟩ := hfirst.update hsecond
  have hs : gift.Stocked 0 {} := ⟨_, rfl⟩
  refine ⟨_, _, _, hsecond, hs, ?_⟩
  cases one_shot_history noAction (.append (.new "gift") _) hs hsecond with
  | kept idle stocked =>
    obtain ⟨target', hstocked⟩ := stocked
    cases hstocked.symm.trans hspent
  | given before after split idle gives later spent => exact ⟨_, _, _, split, gives, spent⟩

def giftTwice : Script Probe Nat (Except Failure Unit × Except Failure Unit × Nat) := do
  let (first, c) ← Chain.behaviour noAction 3 (.update 1 1) ⟨⟨1⟩, ⟨1⟩⟩ gift
  let (second, _) ← Chain.behaviour noAction 3 (.update 1 2) ⟨⟨1⟩, ⟨1⟩⟩ c
  return (first, second, (← Script.scene).componentsIssued)

/-- The second step says that the component was attached already, though the scene has had no component
besides the chain. -/
theorem one_shot_lost : (giftTwice.run ⟨⟨1⟩, ⟨1⟩⟩ giver).1 =
    .ok (.error (.entityNotFound ⟨99⟩), .error (.componentConsumed "gift" .addComponent), 1) := by
  decide +kernel

end FrameChain
