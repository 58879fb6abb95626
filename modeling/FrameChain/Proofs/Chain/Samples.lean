import FrameChain.Proofs.Chain.Turns

set_option autoImplicit false

/-! A turn asks the producers of the command under the cursor, and at the end of a repetition that of
its opener, for what they have not told in this pass. `Script.Accounts` follows a script along
everything it may do, with a log of what it asks for. -/
namespace FrameChain

open Chain ChainRun

variable {κ ω α τ υ : Type}

inductive Datum where
  | count (n : UInt32)
  | seconds (s : Seconds)
  | condition (c : Condition)
  | selector (s : Selector)
  | entity (id : EntityId)
  | data (j : Json)

inductive Part where
  | main
  | target
deriving DecidableEq, Repr

structure Site where
  node : NodeId
  part : Part
deriving DecidableEq, Repr

structure Sample where
  site : Site
  datum : Datum

namespace Lazy

def map (f : τ → υ) (lazy : Lazy ω τ) : Lazy ω υ where
  param :=
    match lazy.param with
    | .value a => .value (f a)
    | .producer p => .producer fun w => ((p w).1.map f, (p w).2)
  cached := lazy.cached.map f

def keeping (lazy : Lazy ω τ) (a : τ) : Lazy ω τ := { lazy with cached := some a }

/-- What a use of the parameter may come to: what is kept of it or, if nothing is, what its producer
tells in some world. -/
inductive Gives (lazy : Lazy ω τ) (a : τ) : Prop
  | kept (h : lazy.cached = some a)
  | told (hc : lazy.cached = none) {w w' : ω} (h : lazy.value w = (.ok a, w'))

def entry (lazy : Lazy ω τ) (wrap : τ → Datum) (site : Site) (a : τ) : List Sample :=
  if lazy.cached.isNone then [⟨site, wrap a⟩] else []

theorem Gives.map {lazy : Lazy ω τ} {a : τ} (h : lazy.Gives a) (f : τ → υ) :
    (lazy.map f).Gives (f a) := by
  cases h with
  | kept h => exact .kept (by rw [Lazy.map, h, Option.map_some])
  | @told hc w w' h =>
    refine .told (by rw [Lazy.map, hc, Option.map_none]) (?_ : (lazy.map f).value w = (.ok (f a), w'))
    obtain ⟨param, cached⟩ := lazy
    cases hc
    cases param with
    | value =>
      cases h
      rfl
    | producer p =>
      change ((p w).1.map f, (p w).2) = _
      rw [show p w = (.ok a, w') from h]
      rfl

end Lazy

inductive Uses (site : Site) :
    Option (Lazy ω Datum) → List Sample → Option (Lazy ω Datum) → Prop
  | absent : Uses site none [] none
  | kept {lazy : Lazy ω Datum} {a : Datum} (h : lazy.cached = some a) : Uses site (some lazy) [] (some lazy)
  | asked {lazy : Lazy ω Datum} {a : Datum} (h : lazy.cached = none) (hg : lazy.Gives a) :
      Uses site (some lazy) [⟨site, a⟩] (some (lazy.keeping a))

theorem Lazy.Gives.uses {lazy : Lazy ω τ} {a : τ} (h : lazy.Gives a) (wrap : τ → Datum) (site : Site) :
    Uses site (some (lazy.map wrap)) (lazy.entry wrap site a) (some ((lazy.keeping a).map wrap)) := by
  cases hc : lazy.cached with
  | none =>
    rw [Lazy.entry, hc]
    exact .asked (by rw [Lazy.map, hc, Option.map_none]) (h.map wrap)
  | some b =>
    cases h with
    | told hnone => cases hc.symm.trans hnone
    | kept ha =>
      have hsame : lazy.keeping a = lazy := by rw [Lazy.keeping, ← ha]
      rw [Lazy.entry, ha, hsame]
      exact .kept (by rw [Lazy.map, ha, Option.map_some])

namespace Command

def param? : Command κ ω α → Part → Option (Lazy ω Datum)
  | beginRepeat times _, .main => some (times.map .count)
  | beginInterval seconds, .main | waitTime seconds, .main => some (seconds.map .seconds)
  | waitFrames frames, .main => some (frames.map .count)
  | waitForMessageWhere _ condition, .main | removeEntitiesWhere condition, .main =>
      some (condition.map .condition)
  | removeComponent selector _, .main => some (selector.map .selector)
  | sendMessage _ data, .main => some (data.map .data)
  | addComponent _ target, .target | removeComponent _ target, .target | removeEntity target, .target =>
      target.map (Lazy.map .entity)
  | _, _ => none

def function? : Command κ ω α → Option ((υ : Type) × HostFun ω υ)
  | beginWhile holds | beginIf holds | waitUntil holds => some ⟨Bool, holds⟩
  | addComponent (.factory f) _ => some ⟨κ, f⟩
  | waitForAll (.factory f) | waitForFirst (.factory f) => some ⟨List (Member κ), f⟩
  | _ => none

end Command

namespace Chain

def param? (c : Chain κ ω α) (site : Site) : Option (Lazy ω Datum) :=
  (c.command? site.node).bind (·.param? site.part)

/-- What a parameter has come to in this pass. -/
def kept? (c : Chain κ ω α) (site : Site) : Option Datum := (c.param? site).bind (·.cached)

end Chain

structure Chain.Dangles (c : Chain κ ω α) (id : NodeId) : Prop where
  named : c.current = some id ∨ id ∈ c.scopes.entries ∨ c.current.bind c.jump? = some id
  absent : c.nodes[id]? = none

section Accounts

variable (act : α → Caller → Script κ ω (Except Failure Unit)) (self : Caller) (base : Chain κ ω α)

/-- Whatever the scene and the host answer, the script asks the scene, the interrupts of the chain, its
predicates and factories, its actions, and parameters that are not kept, and ends in `R` with the log of
the parameters. It breaks off only where the chain refers to a node that is not there. -/
inductive Script.Accounts (R : List Sample → τ → Prop) : List Sample → Script κ ω τ → Prop
  | done {log : List Sample} {a : τ} (h : R log a) : Accounts R log (.done a)
  | dangling {log : List Sample} {id : NodeId} (h : base.Dangles id) :
      Accounts R log (.crash (.dangling id))
  | look {log : List Sample} {next : Scene κ → Script κ ω τ} (h : ∀ s, Accounts R log (next s)) :
      Accounts R log (.look next)
  | ask {log : List Sample} {r : Request κ} {next : r.Reply → Script κ ω τ}
      (h : ∀ reply, Accounts R log (next reply)) : Accounts R log (.ask r next)
  | sample {log : List Sample} {υ : Type} {lazy : Lazy ω υ} {wrap : υ → Datum} {site : Site}
      {next : υ × Lazy ω υ → Script κ ω τ} (hp : base.param? site = some (lazy.map wrap))
      (hc : lazy.cached = none)
      (h : ∀ a, lazy.Gives a → Accounts R (log ++ [⟨site, wrap a⟩]) (next (a, lazy.keeping a))) :
      Accounts R log (lazy.resolve.bind next)
  | consult {log : List Sample} {υ : Type} {f : HostFun ω υ} {next : υ → Script κ ω τ} {id : NodeId}
      (hf : (base.command? id).bind Command.function? = some ⟨υ, f⟩)
      (h : ∀ a, Accounts R log (next a)) : Accounts R log ((Script.host f).bind next)
  | interrupt {log : List Sample} {f : HostFun ω Bool} {next : Bool → Script κ ω τ}
      (hf : f ∈ base.interrupts) (h : ∀ a, Accounts R log (next a)) :
      Accounts R log ((Script.host f).bind next)
  | call {log : List Sample} {action : α} {next : Except Failure Unit → Script κ ω τ} {id : NodeId}
      (ha : base.command? id = some (.call action)) (h : ∀ a, Accounts R log (next a)) :
      Accounts R log ((act action self).bind next)

end Accounts

namespace Script.Accounts

variable {act : α → Caller → Script κ ω (Except Failure Unit)} {self : Caller} {base : Chain κ ω α}
  {R : List Sample → τ → Prop} {S : List Sample → υ → Prop} {log : List Sample}

theorem bind {p : Script κ ω τ} {f : τ → Script κ ω υ} (h : p.Accounts act self base R log)
    (hf : ∀ log a, R log a → (f a).Accounts act self base S log) :
    (p.bind f).Accounts act self base S log := by
  induction h with
  | done ha => exact hf _ _ ha
  | dangling hd => exact .dangling hd
  | look _ ih => exact .look ih
  | ask _ ih => exact .ask ih
  | sample hp hc _ ih =>
    rw [bind_assoc]
    exact .sample hp hc ih
  | consult hid _ ih =>
    rw [bind_assoc]
    exact .consult hid ih
  | interrupt hmem _ ih =>
    rw [bind_assoc]
    exact .interrupt hmem ih
  | call ha _ ih =>
    rw [bind_assoc]
    exact .call ha ih

theorem imp {R' : List Sample → τ → Prop} {p : Script κ ω τ} (h : p.Accounts act self base R log)
    (hr : ∀ log a, R log a → R' log a) : p.Accounts act self base R' log := by
  have hbind := h.bind (S := R') fun log a ha => .done (hr log a ha)
  rwa [bind_done] at hbind

theorem resolve {lazy : Lazy ω υ} (wrap : υ → Datum) (site : Site)
    {next : υ × Lazy ω υ → Script κ ω τ} (hp : base.param? site = some (lazy.map wrap))
    (h : ∀ a, lazy.Gives a → (next (a, lazy.keeping a)).Accounts act self base R
      (log ++ lazy.entry wrap site a)) :
    (lazy.resolve.bind next).Accounts act self base R log := by
  cases hc : lazy.cached with
  | none =>
    refine .sample hp hc fun a ha => ?_
    have hnext := h a ha
    rwa [Lazy.entry, hc] at hnext
  | some a =>
    have hnext := h a (.kept hc)
    rw [Lazy.entry, hc, Option.isNone_some, if_neg Bool.false_ne_true, List.append_nil] at hnext
    obtain ⟨param, cached⟩ := lazy
    cases hc
    exact hnext

theorem host {f : HostFun ω υ} {next : υ → Script κ ω τ} {id : NodeId}
    {command : Command κ ω α} (hid : base.command? id = some command)
    (hf : command.function? = some ⟨υ, f⟩)
    (h : ∀ a, (next a).Accounts act self base R log) :
    ((Script.host f).bind next).Accounts act self base R log :=
  .consult (by rw [hid, Option.bind_some, hf]) h

theorem request {r : Request κ} {next : r.Reply → Script κ ω τ}
    (h : ∀ reply, (next reply).Accounts act self base R log) :
    ((Script.request r).bind next).Accounts act self base R log :=
  .ask h

end Script.Accounts

section Tells

variable [Named κ] (act : α → Caller → Script κ ω (Except Failure Unit)) (self : Caller)
  (base : Chain κ ω α)

/-- The script runs from one setting to another and ends with this value. The parameters that it asks for on
the way are those of the log, in this order. Besides them it runs only the interrupts of the chain, its
predicates and factories, and its actions. -/
inductive Script.Tells : Script κ ω τ → Setting κ ω → List Sample → τ → Setting κ ω → Prop
  | done (a : τ) (σ : Setting κ ω) : Tells (.done a) σ [] a σ
  | look {next : Scene κ → Script κ ω τ} {σ σ' : Setting κ ω} {log : List Sample} {a : τ}
      (h : Tells (next σ.scene) σ log a σ') : Tells (.look next) σ log a σ'
  | ask {r : Request κ} {next : r.Reply → Script κ ω τ} {σ σ' : Setting κ ω} {log : List Sample} {a : τ}
      (h : Tells (next (r.answer self σ.scene).1) ⟨(r.answer self σ.scene).2, σ.world⟩ log a σ') :
      Tells (.ask r next) σ log a σ'
  | sample {υ : Type} {lazy : Lazy ω υ} {wrap : υ → Datum} {site : Site}
      {next : υ × Lazy ω υ → Script κ ω τ} {σ σ' : Setting κ ω} {log : List Sample} {a : τ} {b : υ} {w : ω}
      (hp : base.param? site = some (lazy.map wrap)) (hc : lazy.cached = none)
      (hv : lazy.value σ.world = (.ok b, w)) (h : Tells (next (b, lazy.keeping b)) ⟨σ.scene, w⟩ log a σ') :
      Tells (lazy.resolve.bind next) σ (⟨site, wrap b⟩ :: log) a σ'
  | consult {υ : Type} {f : HostFun ω υ} {next : υ → Script κ ω τ} {id : NodeId} {σ σ' : Setting κ ω}
      {log : List Sample} {a : τ} {b : υ} {w : ω}
      (hf : (base.command? id).bind Command.function? = some ⟨υ, f⟩) (hv : f σ.world = (.ok b, w))
      (h : Tells (next b) ⟨σ.scene, w⟩ log a σ') : Tells ((Script.host f).bind next) σ log a σ'
  | interrupt {f : HostFun ω Bool} {next : Bool → Script κ ω τ} {σ σ' : Setting κ ω} {log : List Sample}
      {a : τ} {b : Bool} {w : ω} (hf : f ∈ base.interrupts) (hv : f σ.world = (.ok b, w))
      (h : Tells (next b) ⟨σ.scene, w⟩ log a σ') : Tells ((Script.host f).bind next) σ log a σ'
  | call {action : α} {next : Except Failure Unit → Script κ ω τ} {id : NodeId} {σ σ₁ σ' : Setting κ ω}
      {log : List Sample} {a : τ} {b : Except Failure Unit}
      (ha : base.command? id = some (.call action)) (hr : (act action self).run self σ = (.ok b, σ₁))
      (h : Tells (next b) σ₁ log a σ') : Tells ((act action self).bind next) σ log a σ'

variable {act self base} {p : Script κ ω τ} {σ σ' : Setting κ ω} {log : List Sample} {a : τ}

theorem Lazy.run_resolve {lazy : Lazy ω υ} (self : Caller) (σ : Setting κ ω) {b : υ} {w : ω}
    (hv : lazy.value σ.world = (.ok b, w)) :
    (lazy.resolve : Script κ ω (υ × Lazy ω υ)).run self σ = (.ok (b, lazy.keeping b), ⟨σ.scene, w⟩) := by
  rw [outcome_resolve, hv]
  rfl

theorem Script.Tells.run (h : p.Tells act self base σ log a σ') : p.run self σ = (.ok a, σ') := by
  induction h with
  | done a σ => rfl
  | look _ ih => exact ih
  | ask _ ih => exact ih
  | sample _ _ hv _ ih =>
    rw [Script.run_bind, Lazy.run_resolve _ _ hv]
    exact ih
  | consult _ hv _ ih | interrupt _ hv _ ih =>
    rw [Script.run_bind, Script.run_host, hv]
    exact ih
  | call _ hr _ ih =>
    rw [Script.run_bind, hr]
    exact ih

/-- Every run of a script that accounts for what it asks for has a log, and it ends where the script can
end. -/
theorem Script.Accounts.tells {R : List Sample → τ → Prop} (h : p.Accounts act self base R log)
    (hr : p.run self σ = (.ok a, σ')) :
    ∃ more, p.Tells act self base σ more a σ' ∧ R (log ++ more) a := by
  induction h generalizing σ with
  | @done log b hb =>
    cases hr
    exact ⟨[], .done _ _, by rwa [List.append_nil]⟩
  | dangling => cases hr
  | look _ ih =>
    obtain ⟨more, hmore, hend⟩ := ih _ hr
    exact ⟨more, .look hmore, hend⟩
  | ask _ ih =>
    obtain ⟨more, hmore, hend⟩ := ih _ hr
    exact ⟨more, .ask hmore, hend⟩
  | @sample log υ lazy wrap site next hp hc _ ih =>
    obtain ⟨b, σ₁, hq, hnext⟩ := Script.exists_of_bind hr
    rw [outcome_resolve] at hq
    cases hv : lazy.value σ.world with
    | mk outcome w =>
      rw [hv] at hq
      cases outcome with
      | error crash => cases hq
      | ok x =>
        cases hq
        obtain ⟨more, hmore, hend⟩ := ih x (.told hc hv) hnext
        exact ⟨_, .sample hp hc hv hmore, by rwa [List.append_assoc] at hend⟩
  | @consult log υ f next id hf _ ih =>
    obtain ⟨b, σ₁, hq, hnext⟩ := Script.exists_of_bind hr
    rw [Script.run_host] at hq
    cases hv : f σ.world with
    | mk outcome w =>
      rw [hv] at hq
      cases hq
      obtain ⟨more, hmore, hend⟩ := ih b hnext
      exact ⟨more, .consult hf hv hmore, hend⟩
  | @interrupt log f next hf _ ih =>
    obtain ⟨b, σ₁, hq, hnext⟩ := Script.exists_of_bind hr
    rw [Script.run_host] at hq
    cases hv : f σ.world with
    | mk outcome w =>
      rw [hv] at hq
      cases hq
      obtain ⟨more, hmore, hend⟩ := ih b hnext
      exact ⟨more, .interrupt hf hv hmore, hend⟩
  | call ha _ ih =>
    obtain ⟨b, σ₁, hq, hnext⟩ := Script.exists_of_bind hr
    obtain ⟨more, hmore, hend⟩ := ih b hnext
    exact ⟨more, .call ha hq hmore, hend⟩

/-- A function of the host crashes so: an interrupt of the chain, a predicate, factory or producer of one of
its commands, or one of its actions. -/
inductive Chain.Raises (act : α → Caller → Script κ ω (Except Failure Unit)) (self : Caller)
    (c : Chain κ ω α) (crash : Crash) : Prop
  | interrupt {f : HostFun ω Bool} {w : ω} (hf : f ∈ c.interrupts) (h : (f w).1 = .error crash)
  | function {υ : Type} {f : HostFun ω υ} {id : NodeId} {w : ω}
      (hf : (c.command? id).bind Command.function? = some ⟨υ, f⟩) (h : (f w).1 = .error crash)
  | producer {υ : Type} {lazy : Lazy ω υ} {wrap : υ → Datum} {site : Site} {w : ω}
      (hp : c.param? site = some (lazy.map wrap)) (h : (lazy.value w).1 = .error crash)
  | action {action : α} {id : NodeId} {σ σ' : Setting κ ω} (ha : c.command? id = some (.call action))
      (h : (act action self).run self σ = (.error crash, σ'))

/-- A script that accounts for what it asks for crashes only where somebody else did, or where the chain
refers to a node that is not there. -/
theorem Script.Accounts.crashes {R : List Sample → τ → Prop} {crash : Crash}
    (h : p.Accounts act self base R log) (hr : p.run self σ = (.error crash, σ')) :
    base.Raises act self crash ∨ ∃ id, base.Dangles id ∧ crash = .dangling id := by
  induction h generalizing σ with
  | done => cases hr
  | @dangling log id hd =>
    cases hr
    exact .inr ⟨id, hd, rfl⟩
  | look _ ih | ask _ ih => exact ih _ hr
  | @sample log υ lazy wrap site next hp hc _ ih =>
    rw [Script.run_bind, outcome_resolve] at hr
    cases hv : lazy.value σ.world with
    | mk outcome w =>
      rw [hv] at hr
      cases outcome with
      | error =>
        cases hr
        exact .inl (.producer hp (by rw [hv]))
      | ok x => exact ih x (.told hc hv) hr
  | @consult log υ f next id hf _ ih =>
    rw [Script.run_bind, Script.run_host] at hr
    cases hv : f σ.world with
    | mk outcome w =>
      rw [hv] at hr
      cases outcome with
      | error =>
        cases hr
        exact .inl (.function hf (by rw [hv]))
      | ok x => exact ih x hr
  | @interrupt log f next hf _ ih =>
    rw [Script.run_bind, Script.run_host] at hr
    cases hv : f σ.world with
    | mk outcome w =>
      rw [hv] at hr
      cases outcome with
      | error =>
        cases hr
        exact .inl (.interrupt hf (by rw [hv]))
      | ok x => exact ih x hr
  | @call log action next id ha _ ih =>
    rw [Script.run_bind] at hr
    cases hv : (act action self).run self σ with
    | mk outcome σ₁ =>
      rw [hv] at hr
      cases outcome with
      | error =>
        cases hr
        exact .inl (.action ha hv)
      | ok x => exact ih x hr

end Tells

/-! ## Errands -/

namespace Errand

def spent : Errand κ ω α → Errand κ ω α
  | addComponent (.single _) target => addComponent (.single none) target
  | waitForMembers quorum (.members _) ids => waitForMembers quorum (.members none) ids
  | e => e

structure Visited (id : NodeId) (e : Errand κ ω α) (log : List Sample) (e' : Errand κ ω α) : Prop where
  uses : ∃ aims mains, log = aims ++ mains ∧
    Uses ⟨id, .target⟩ (e.command.param? .target) aims (e'.command.param? .target) ∧
    Uses ⟨id, .main⟩ (e.command.param? .main) mains (e'.command.param? .main)
  fresh : e'.fresh = e.fresh ∨ e'.fresh = e.fresh.spent

section Visited

variable {id : NodeId} {e e' : Errand κ ω α} {log : List Sample}

theorem visited_bare (hp : ∀ part, e.command.param? part = none)
    (hp' : ∀ part, e'.command.param? part = none) (h : e'.fresh = e.fresh ∨ e'.fresh = e.fresh.spent) :
    Visited id e [] e' := by
  refine ⟨⟨[], [], rfl, ?_, ?_⟩, h⟩
  · rw [hp, hp']
    exact .absent
  · rw [hp, hp']
    exact .absent

theorem visited_main (hp : e.command.param? .target = none) (hp' : e'.command.param? .target = none)
    (hu : Uses ⟨id, .main⟩ (e.command.param? .main) log (e'.command.param? .main))
    (h : e'.fresh = e.fresh) : Visited id e log e' := by
  refine ⟨⟨[], log, rfl, ?_, hu⟩, .inl h⟩
  rw [hp, hp']
  exact .absent

theorem visited_target (hp : e.command.param? .main = none) (hp' : e'.command.param? .main = none)
    (hu : Uses ⟨id, .target⟩ (e.command.param? .target) log (e'.command.param? .target))
    (h : e'.fresh = e.fresh ∨ e'.fresh = e.fresh.spent) : Visited id e log e' := by
  refine ⟨⟨log, [], (List.append_nil log).symm, hu, ?_⟩, h⟩
  rw [hp, hp']
  exact .absent

end Visited

end Errand

theorem Visit.errand_closing (e : Errand κ ω α) (answer : Except Failure Unit) :
    (e.closing answer).errand = e := by
  cases answer <;> rfl

namespace Script.Accounts

variable {act : α → Caller → Script κ ω (Except Failure Unit)} {self : Caller} {base : Chain κ ω α}
  {R : List Sample → τ → Prop} {log : List Sample} {id : NodeId}

theorem targeted {target : Option (Lazy ω EntityId)}
    {next : EntityId × Option (Lazy ω EntityId) → Script κ ω τ}
    (hp : base.param? ⟨id, .target⟩ = target.map (Lazy.map .entity))
    (h : ∀ entity target' aims,
      Uses ⟨id, .target⟩ (target.map (Lazy.map .entity)) aims (target'.map (Lazy.map .entity)) →
        target'.map Lazy.reset = target.map Lazy.reset →
          (next (entity, target')).Accounts act self base R (log ++ aims)) :
    ((Errand.targeted self target).bind next).Accounts act self base R log := by
  cases target with
  | none =>
    have hnext := h self.entity none [] .absent rfl
    rwa [List.append_nil] at hnext
  | some lazy =>
    rw [Errand.targeted, Script.bind_eq, bind_assoc]
    exact resolve _ _ hp fun a ha => h a (some (lazy.keeping a)) _ (ha.uses _ _) rfl

theorem enlisted {owner : EntityId} {members : List (Member κ)}
    {next : Except Failure (List ComponentId) → Script κ ω τ}
    (h : ∀ answer, (next answer).Accounts act self base R log) :
    ((Errand.enlisted owner members).bind next).Accounts act self base R log := by
  induction members generalizing next with
  | nil => exact h _
  | cons m rest ih =>
    cases m with
    | existing id =>
      rw [Errand.enlisted, Script.bind_eq, bind_assoc]
      exact ih fun answer => h _
    | fresh component =>
      rw [Errand.enlisted, Script.bind_eq, bind_assoc]
      refine request fun reply => ?_
      cases reply with
      | error f => exact h _
      | ok id =>
        simp only [Script.bind_eq, bind_assoc]
        exact ih fun answer => h _

theorem dismissed {ids : List ComponentId} {next : Except Failure Unit → Script κ ω τ}
    (h : ∀ answer, (next answer).Accounts act self base R log) :
    ((Errand.dismissed ids).bind next).Accounts act self base R log := by
  induction ids generalizing next with
  | nil => exact h _
  | cons id rest ih =>
    rw [Errand.dismissed]
    refine .look fun s => ?_
    simp only [Script.bind]
    cases s.isDone id with
    | true => exact ih h
    | false =>
      simp only [Bool.false_eq_true, if_false, Script.bind_eq, bind_assoc]
      refine request fun reply => ?_
      cases reply with
      | error f => exact h _
      | ok _ => exact ih h

theorem cleared {ids : List EntityId} {next : Except Failure Unit → Script κ ω τ}
    (h : ∀ answer, (next answer).Accounts act self base R log) :
    ((Errand.cleared ids).bind next).Accounts act self base R log := by
  induction ids generalizing next with
  | nil => exact h _
  | cons id rest ih =>
    rw [Errand.cleared, Script.bind_eq, bind_assoc]
    refine request fun reply => ?_
    cases reply with
    | error f => exact h _
    | ok _ => exact ih h

end Script.Accounts

namespace Errand

open Script

section Visits

variable (act : α → Caller → Script κ ω (Except Failure Unit)) (self : Caller) (absolute : Seconds)
  (name : String) {base : Chain κ ω α} {id : NodeId}

abbrev AccountsVisit (base : Chain κ ω α) (id : NodeId) (e : Errand κ ω α)
    (p : Script κ ω (Visit κ ω α)) : Prop :=
  p.Accounts act self base (fun log v => e.Visited id log v.errand) []

theorem accounts_addComponent {source : Source κ ω} {target : Option (Lazy ω EntityId)}
    (hid : base.command? id = some (.addComponent source target)) :
    AccountsVisit act self base id (addComponent source target)
      ((addComponent source target).visit act self absolute name) := by
  have hp : base.param? ⟨id, .target⟩ = target.map (Lazy.map .entity) := by
    rw [Chain.param?, hid]
    rfl
  refine Accounts.targeted hp fun entity target' aims hu hreset => ?_
  have hfresh (source' : Source κ ω) (h : source' = source ∨ ∃ x, source = .single x ∧ source' = .single none) :
      Visited id (addComponent source target : Errand κ ω α) aims (addComponent source' target') := by
    refine visited_target rfl rfl hu ?_
    rcases h with rfl | ⟨x, rfl, rfl⟩
    · exact .inl (by rw [fresh, fresh, hreset])
    · exact .inr (by rw [fresh, fresh, hreset, spent])
  cases source with
  | single component =>
    cases component with
    | none => exact .done (hfresh _ (.inl rfl))
    | some component =>
      refine Accounts.request fun reply => ?_
      cases reply <;> exact .done (hfresh _ (.inr ⟨_, rfl, rfl⟩))
  | factory f =>
    simp only [supplied, Script.bind_eq, bind_assoc]
    refine Accounts.host hid rfl fun component => Accounts.request fun reply => ?_
    cases reply <;> exact .done (hfresh _ (.inl rfl))

theorem accounts_removeComponent {selector : Lazy ω Selector} {target : Option (Lazy ω EntityId)}
    (hid : base.command? id = some (.removeComponent selector target)) :
    AccountsVisit act self base id (removeComponent selector target)
      ((removeComponent selector target).visit act self absolute name) := by
  have hp (part : Part) : base.param? ⟨id, part⟩ =
      (Command.removeComponent selector target : Command κ ω α).param? part := by
    rw [Chain.param?, hid]
    rfl
  refine Accounts.targeted (hp .target) fun entity target' aims hu hreset => ?_
  refine Accounts.resolve _ _ (hp .main) fun chosen hg => ?_
  have hvisited : Visited id (removeComponent selector target : Errand κ ω α)
      ([] ++ aims ++ selector.entry .selector ⟨id, .main⟩ chosen)
      (removeComponent (selector.keeping chosen) target') := by
    refine ⟨⟨aims, _, rfl, hu, hg.uses _ _⟩, .inl ?_⟩
    rw [fresh, fresh, hreset]
    rfl
  cases chosen with
  | id component =>
    exact Accounts.request fun reply => .done (by rw [Visit.errand_closing]; exact hvisited)
  | name component =>
    refine .look fun s => ?_
    simp only [Script.bind]
    cases s.findComponent? entity component with
    | none => exact .done hvisited
    | some component =>
      exact Accounts.request fun reply => .done (by rw [Visit.errand_closing]; exact hvisited)

theorem accounts_awaiting {quorum : Quorum} {e : Errand κ ω α} {ids : List ComponentId}
    {R : List Sample → Visit κ ω α → Prop} {log : List Sample} (h : ∀ v, v.errand = e → R log v) :
    (e.awaiting ids quorum).Accounts act self base R log := by
  cases quorum with
  | all =>
    refine .look fun s => .done (h _ ?_)
    split <;> rfl
  | first =>
    refine .look fun s => ?_
    simp only [Script.bind]
    cases ids.any s.isDone with
    | true => exact Accounts.dismissed fun answer => .done (h _ (Visit.errand_closing e answer))
    | false =>
      refine .done (h _ ?_)
      split <;> rfl

theorem accounts_waitForMembers {quorum : Quorum} {set : MemberSet κ ω} {ids : Option (List ComponentId)}
    (hid : base.command? id = some (quorum.command set)) :
    AccountsVisit act self base id (waitForMembers quorum set ids)
      ((waitForMembers quorum set ids).visit act self absolute name) := by
  have hbare (set : MemberSet κ ω) (ids : Option (List ComponentId)) (part : Part) :
      (waitForMembers quorum set ids : Errand κ ω α).command.param? part = none := by
    cases quorum <;> cases part <;> rfl
  have hvisited {set' : MemberSet κ ω} {ids' : Option (List ComponentId)}
      (h : set' = set ∨ ∃ list, set = .members list ∧ set' = .members none) :
      Visited id (waitForMembers quorum set ids : Errand κ ω α) [] (waitForMembers quorum set' ids') := by
    refine visited_bare (hbare _ _) (hbare _ _) ?_
    rcases h with rfl | ⟨list, rfl, rfl⟩
    · exact .inl rfl
    · exact .inr rfl
  cases ids with
  | some ids => exact accounts_awaiting act self fun v hv => by rw [hv]; exact hvisited (.inl rfl)
  | none =>
    cases set with
    | members list =>
      cases list with
      | none => exact .done (hvisited (.inl rfl))
      | some list =>
        simp only [visit, resolved, Script.bind_eq, bind_assoc]
        refine Accounts.enlisted fun answer => ?_
        cases answer with
        | error f => exact .done (hvisited (.inr ⟨_, rfl, rfl⟩))
        | ok ids =>
          exact accounts_awaiting act self fun v hv => by rw [hv]; exact hvisited (.inr ⟨_, rfl, rfl⟩)
    | factory f =>
      simp only [visit, resolved, Script.bind_eq, bind_assoc]
      have hf : (quorum.command (.factory f) : Command κ ω α).function? = some ⟨_, f⟩ := by
        cases quorum <;> rfl
      refine Accounts.host hid hf fun members => Accounts.enlisted fun answer => ?_
      cases answer with
      | error f => exact .done (hvisited (.inl rfl))
      | ok ids => exact accounts_awaiting act self fun v hv => by rw [hv]; exact hvisited (.inl rfl)

theorem accounts_listening {key : String} {condition : Option (Lazy ω Condition)}
    {filter : Option Condition} {arrived : Option Bool} {R : List Sample → Visit κ ω α → Prop}
    {log : List Sample}
    (h : ∀ v, (∃ arrived', v.errand = waitForMessage key condition arrived') → R log v) :
    (listening key condition filter arrived).Accounts act self base R log := by
  cases arrived with
  | none =>
    refine Accounts.request fun reply => ?_
    cases reply <;> exact .done (h _ ⟨_, rfl⟩)
  | some arrived =>
    cases arrived with
    | false => exact .done (h _ ⟨_, rfl⟩)
    | true => exact Accounts.request fun _ => .done (h _ ⟨_, rfl⟩)

theorem accounts_waitForMessage {key : String} {condition : Option (Lazy ω Condition)}
    {arrived : Option Bool}
    (hid : base.command? id = some (waitForMessage key condition arrived : Errand κ ω α).command) :
    AccountsVisit act self base id (waitForMessage key condition arrived)
      ((waitForMessage key condition arrived).visit act self absolute name) := by
  cases condition with
  | none =>
    refine accounts_listening act self ?_
    rintro v ⟨arrived', hv⟩
    rw [hv]
    exact visited_bare (fun part => by cases part <;> rfl) (fun part => by cases part <;> rfl) (.inl rfl)
  | some condition =>
    refine Accounts.resolve .condition ⟨id, .main⟩ (by rw [Chain.param?, hid]; rfl)
      fun filter hg => accounts_listening act self ?_
    rintro v ⟨arrived', hv⟩
    rw [hv]
    exact visited_main rfl rfl (hg.uses _ _) rfl

/-- A visit asks for the parameters of its errand that are not kept, and for no others. -/
theorem accounts_visit (e : Errand κ ω α) (hid : base.command? id = some e.command) :
    AccountsVisit act self base id e (e.visit act self absolute name) := by
  have hp (part : Part) : base.param? ⟨id, part⟩ = e.command.param? part := by
    rw [Chain.param?, hid]
    rfl
  cases e with
  | call action =>
    refine .call hid fun answer => .done ?_
    rw [Visit.errand_closing]
    exact visited_bare (fun part => by cases part <;> rfl) (fun part => by cases part <;> rfl) (.inl rfl)
  | addComponent source target => exact accounts_addComponent act self absolute name hid
  | removeComponent selector target => exact accounts_removeComponent act self absolute name hid
  | removeEntitiesWhere condition =>
    refine Accounts.resolve _ _ (hp .main) fun a hg => .look fun s => Accounts.cleared fun answer => .done ?_
    rw [Visit.errand_closing]
    exact visited_main rfl rfl (hg.uses _ _) rfl
  | removeEntity target =>
    refine Accounts.targeted (hp .target) fun entity target' aims hu hreset =>
      Accounts.request fun answer => .done ?_
    rw [Visit.errand_closing]
    exact visited_target rfl rfl hu (.inl (congrArg removeEntity hreset))
  | sendMessage key data =>
    exact Accounts.resolve _ _ (hp .main) fun a hg => Accounts.request fun _ =>
      .done (visited_main rfl rfl (hg.uses _ _) rfl)
  | waitTime seconds since =>
    refine Accounts.resolve _ _ (hp .main) fun limit hg => ?_
    by_cases hpast : absolute - since.getD absolute > limit
    · simp only [if_pos hpast]
      exact .done (visited_main rfl rfl (hg.uses _ _) rfl)
    · simp only [if_neg hpast]
      exact .done (visited_main rfl rfl (hg.uses _ _) rfl)
  | waitFrames frames waited =>
    refine Accounts.resolve _ _ (hp .main) fun limit hg => ?_
    cases waited with
    | none => exact .done (visited_main rfl rfl (hg.uses _ _) rfl)
    | some n =>
      by_cases hpast : n + 1 > limit
      · simp only [if_pos hpast]
        exact .done (visited_main rfl rfl (hg.uses _ _) rfl)
      · simp only [if_neg hpast]
        exact .done (visited_main rfl rfl (hg.uses _ _) rfl)
  | waitUntil holds =>
    refine Accounts.host hid rfl fun answer => ?_
    cases answer with
    | true =>
      exact .done (visited_bare (fun part => by cases part <;> rfl) (fun part => by cases part <;> rfl)
        (.inl rfl))
    | false =>
      exact .done (visited_bare (fun part => by cases part <;> rfl) (fun part => by cases part <;> rfl)
        (.inl rfl))
  | waitForMembers quorum set ids => exact accounts_waitForMembers act self absolute name hid
  | waitForMessage key condition arrived => exact accounts_waitForMessage act self absolute name hid

end Visits

end Errand

end FrameChain
