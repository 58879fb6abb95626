import FrameChain.Proofs.History
import FrameChain.Proofs.Structured.Simulation

set_option autoImplicit false

namespace FrameChain

variable {κ ω α τ : Type}

def Performer.chain (p : Performer κ ω α) : Chain κ ω α :=
  match p.stage with
  | .ready q => { Chain.idle p.name p.attached (bare q.commands) with finished := p.finished }
  | .running s =>
    if p.finished then (s.chain p.name p.attached).stopped else s.chain p.name p.attached

namespace Focus

theorem messageKey_scratch (focus : Focus κ ω α) : focus.scratch.messageKey = focus.key? := by
  cases focus with
  | within e rest =>
    cases e with
    | waitForMessage key condition arrived => cases arrived <;> rfl
    | _ => rfl
  | _ => rfl

theorem eq_of_key {focus : Focus κ ω α} {key : String} (h : focus.key? = some key) :
    ∃ condition arrived rest, focus = within (.waitForMessage key condition (some arrived)) rest := by
  unfold key? at h
  split at h
  · cases h
    exact ⟨_, _, _, rfl⟩
  · cases h

theorem notice_of_silent (m : Message) {focus : Focus κ ω α} (h : focus.key? = none) :
    focus.notice m = focus := by
  cases focus with
  | within e rest =>
    cases e with
    | waitForMessage key condition arrived =>
      cases arrived with
      | none => rfl
      | some arrived => cases h
    | _ => rfl
  | _ => rfl

theorem tokens_notice (m : Message) (focus : Focus κ ω α) :
    (focus.notice m).tokens = focus.tokens := by
  cases hkey : focus.key? with
  | none => rw [notice_of_silent m hkey]
  | some key =>
    obtain ⟨condition, arrived, rest, rfl⟩ := eq_of_key hkey
    cases condition <;> rfl

end Focus

theorem Spot.chain_notice (name : String) (attached : Bool) (m : Message) (s : Spot κ ω α) :
    Spot.chain name attached { s with focus := s.focus.notice m } =
      { s.chain name attached with scratch := (s.focus.notice m).scratch } := by
  simp only [Spot.chain, Spot.left, Spot.right, Spot.size, Focus.tokens_notice]
  rfl

namespace ChainRun

variable (act : α → Caller → Script κ ω (Except Failure Unit)) (fuel : Nat) (self : Caller)
  (absolute : Seconds)

theorem run_step_finished (c : Chain κ ω α) (h : c.finished = true) :
    (step act fuel self absolute).run c = .done (.error (.chainFinished c.name), c) := by
  simp only [step, start, run_bind, run_chain, Script.bind, h, if_true, run_throw]

theorem run_step_idle (name : String) (attached : Bool) (p : Program κ ω α) :
    (step act fuel self absolute).run (Chain.idle name attached (bare p.commands)) =
      (rounds act self absolute fuel).run
        (Spot.chain name attached { focus := .entering p }) := by
  have hc : Spot.chain name attached { focus := .entering p } =
      Chain.laid name attached p.tokens 0 [] {} := by
    have ht : Spot.left { focus := .entering p } ++ Spot.right { focus := .entering p } = p.tokens :=
      List.append_nil _
    rw [Spot.chain, ht]
    rfl
  have hidle : (Chain.idle name attached (bare p.commands)).finished = false ∧
      (Chain.idle name attached (bare p.commands)).jumpsStale = true := ⟨rfl, rfl⟩
  simp only [step, start, run_bind, run_chain, Script.bind, hidle, Bool.false_eq_true, if_false,
    if_true, Chain.resolveJumps_idle, run_set, hc]
  rfl

theorem run_notice_spot (name : String) (attached : Bool) (m : Message) (s : Spot κ ω α) :
    (notice m).run (s.chain name attached) =
      .done (.ok (), Spot.chain name attached { s with focus := s.focus.notice m }) := by
  cases hcur : (s.chain name attached).current with
  | none =>
    obtain ⟨p, rfl⟩ := ended_of_current_none name attached s hcur
    simp only [notice, run_bind, run_chain, Script.bind, hcur]
    rfl
  | some pos =>
    obtain rfl : pos = s.left.length := Chain.eq_of_current hcur
    obtain ⟨t, r, hr⟩ : ∃ t r, s.right = t :: r := by
      have hlt := Chain.lt_of_current hcur
      cases hright : s.right with
      | nil =>
        rw [hright, List.append_nil] at hlt
        exact absurd hlt (Nat.lt_irrefl _)
      | cons t r => exact ⟨t, r, rfl⟩
    have hnode : (node s.left.length).run (s.chain name attached) =
        .done (.ok (t.node (s.left ++ t :: r).length s.left.length), s.chain name attached) := by
      rw [Spot.chain, hr]
      exact run_node_mid ..
    simp only [notice, run_bind, run_chain, Script.bind, hcur, hnode]
    cases hkey : s.focus.key? with
    | none =>
      have hscratch : (s.chain name attached).scratch.messageKey = none :=
        (Focus.messageKey_scratch s.focus).trans hkey
      have hsome : (none == some m.key) = false := rfl
      rw [hscratch, hsome, Bool.and_false, Focus.notice_of_silent m hkey]
      rfl
    | some key =>
      obtain ⟨before, focus, levels⟩ := s
      obtain ⟨condition, arrived, rest, rfl⟩ := Focus.eq_of_key hkey
      obtain ⟨rfl, -⟩ := List.cons.inj hr
      have hwaits : (decide ((Errand.waitForMessage key condition (some arrived) :
          Errand κ ω α).command.opcode = .waitForMessage) ||
          decide ((Errand.waitForMessage key condition (some arrived) :
            Errand κ ω α).command.opcode = .waitForMessageWhere)) = true := by
        cases condition <;> rfl
      have hscratch : (Spot.chain name attached ⟨before,
          .within (.waitForMessage key condition (some arrived)) rest,
          levels⟩).scratch.messageKey = some key := rfl
      rw [Token.node_command, hwaits, hscratch, Bool.true_and, Spot.chain_notice]
      cases hm : some key == some m.key with
      | true =>
        have hk : (key == m.key) = true := hm
        simp only [if_true, run_modifyScratch, Focus.notice, Focus.scratch, Errand.notice, hk,
          Bool.or_true]
        rfl
      | false =>
        have hk : (key == m.key) = false := hm
        simp only [Bool.false_eq_true, if_false, run_pure, Focus.notice, Focus.scratch,
          Errand.notice, hk, Bool.or_false]
        rfl

theorem run_shutDown_spot (name : String) (attached : Bool) (s : Spot κ ω α) :
    shutDown.run (s.chain name attached) =
      match s.focus.key? with
      | some key => .ask (.unsubscribe key) fun _ => .done (.ok (), (s.chain name attached).stopped)
      | none => .done (.ok (), (s.chain name attached).stopped) := by
  obtain ⟨before, focus, levels⟩ := s
  cases focus with
  | within e rest =>
    cases e with
    | waitForMessage key condition arrived => cases arrived <;> rfl
    | _ => rfl
  | _ => rfl

end ChainRun

theorem Performer.shutDown_chain (act : α → Caller → Script κ ω (Except Failure Unit)) (fuel : Nat)
    (self : Caller) (p : Performer κ ω α) :
    ChainRun.shutDown.run p.chain =
      (p.behaviour act fuel .finish self).bind fun (outcome, p) => .done (outcome, p.chain) := by
  obtain ⟨name, attached, finished, stage⟩ := p
  cases stage with
  | ready p => cases finished <;> rfl
  | running s =>
    cases finished with
    | true => rfl
    | false =>
      refine (ChainRun.run_shutDown_spot name attached s).trans ?_
      have hkey : Performer.key? ⟨name, attached, false, .running s⟩ = s.focus.key? := rfl
      cases hk : s.focus.key? <;> simp only [behaviour, hkey, hk] <;> rfl

theorem Performer.behaviour_chain (act : α → Caller → Script κ ω (Except Failure Unit)) (fuel : Nat)
    (callback : Callback) (self : Caller) (p : Performer κ ω α) :
    Chain.behaviour act fuel callback self p.chain =
      (p.behaviour act fuel callback self).bind fun (outcome, p) => .done (outcome, p.chain) := by
  obtain ⟨name, attached, finished, stage⟩ := p
  cases callback with
  | init => cases stage <;> cases finished <;> rfl
  | attach => cases stage <;> cases finished <;> rfl
  | remove => cases stage <;> cases finished <;> rfl
  | update delta absolute =>
    cases finished with
    | true =>
      cases stage <;> exact ChainRun.run_step_finished act fuel self absolute _ rfl
    | false =>
      have hrun : (ChainRun.step act fuel self absolute).run
          (Performer.chain ⟨name, attached, false, stage⟩) =
            (ChainRun.rounds act self absolute fuel).run (stage.spot.chain name attached) := by
        cases stage with
        | ready p => exact ChainRun.run_step_idle act fuel self absolute name attached p
        | running s => rfl
      refine hrun.trans ?_
      rw [ChainRun.run_rounds_spot]
      simp only [behaviour, Bool.false_eq_true, if_false, Script.bind_eq, Script.bind_assoc]
      congr 1
      funext ⟨answer, s⟩
      cases answer with
      | ok ended => cases ended <;> rfl
      | error f => rfl
  | message m =>
    cases stage with
    | ready p => cases finished <;> rfl
    | running s =>
      cases finished with
      | false => exact ChainRun.run_notice_spot name attached m s
      | true =>
        change _ = Script.done (_, (Spot.chain name attached
          { s with focus := s.focus.notice m }).stopped)
        rw [Spot.chain_notice]
        rfl
  | finish => exact shutDown_chain act fuel self _
  | detach => exact shutDown_chain act fuel self _

inductive Interaction (κ ω : Type) where
  | looked (s : Scene κ)
  | asked (r : Request κ)
  | consulted (w : ω)
  | stored (w : ω)

/-- What a script does in a setting, up to its end or its crash. -/
def Script.interactions [Named κ] (self : Caller) :
    Script κ ω τ → Setting κ ω → List (Interaction κ ω)
  | done _, _ | crash _, _ => []
  | look next, σ => .looked σ.scene :: (next σ.scene).interactions self σ
  | ask r next, σ =>
    let (a, scene) := r.answer self σ.scene
    .asked r :: (next a).interactions self { σ with scene }
  | consult next, σ => .consulted σ.world :: (next σ.world).interactions self σ
  | store w next, σ => .stored w :: next.interactions self { σ with world := w }

inductive Outcome where
  | suspended
  | completed
  /-- The component was finished or detached, by itself or by another one. -/
  | stopped
  | failed (f : Failure)
  /-- A crash of the host, or a call that is cut off. -/
  | crashed (c : Crash)
deriving DecidableEq, Repr

def Outcome.of (completed stopped : Bool) : Except Failure Unit → Outcome
  | .ok () => if completed then .completed else if stopped then .stopped else .suspended
  | .error f => .failed f

/-- A callback of a component, cut off where the fuel is used up. -/
structure Call (κ ω : Type) where
  callback : Callback
  self : Caller
  fuel : Nat
  /-- What happens to the scene and the world before the call. -/
  meanwhile : Setting κ ω → Setting κ ω

structure Report (κ ω : Type) where
  interactions : List (Interaction κ ω)
  outcome : Outcome

/-- The reports of calls one after the other. A call that is cut off is the last one. -/
def reports {χ : Type} [Named κ]
    (b : Nat → Callback → Caller → χ → Script κ ω (Except Failure Unit × χ)) (completed : χ → Bool) :
    List (Call κ ω) → χ → Setting κ ω → List (Report κ ω)
  | [], _, _ => []
  | call :: rest, c, σ =>
    let before := call.meanwhile σ
    let p := b call.fuel call.callback call.self c
    match p.run call.self before with
    | (.ok (answer, c), after) =>
      let stopped := after.scene.isDone call.self.component
      ⟨p.interactions call.self before, .of (completed c) stopped answer⟩ ::
        reports b completed rest c after
    | (.error crash, _) => [⟨p.interactions call.self before, .crashed crash⟩]

theorem Script.interactions_map [Named κ] {υ : Type} (self : Caller) (p : Script κ ω τ) (f : τ → υ)
    (σ : Setting κ ω) :
    (p.bind fun a => .done (f a)).interactions self σ = p.interactions self σ := by
  induction p generalizing σ with
  | done a => rfl
  | crash c => rfl
  | look next ih => exact congrArg _ (ih _ _)
  | ask r next ih => exact congrArg _ (ih _ _)
  | consult next ih => exact congrArg _ (ih _ _)
  | store w next ih => exact congrArg _ (ih _)

theorem reports_map [Named κ] {χ χ' : Type}
    {b : Nat → Callback → Caller → χ → Script κ ω (Except Failure Unit × χ)}
    {b' : Nat → Callback → Caller → χ' → Script κ ω (Except Failure Unit × χ')}
    {completed : χ → Bool} {completed' : χ' → Bool} (f : χ → χ')
    (hb : ∀ fuel callback self c, b' fuel callback self (f c) =
      (b fuel callback self c).bind fun (answer, c) => .done (answer, f c))
    (hc : ∀ c, completed' (f c) = completed c) (calls : List (Call κ ω)) (c : χ) (σ : Setting κ ω) :
    reports b' completed' calls (f c) σ = reports b completed calls c σ := by
  induction calls generalizing c σ with
  | nil => rfl
  | cons call rest ih =>
    have hi := Script.interactions_map call.self (b call.fuel call.callback call.self c)
      (fun answer => (answer.1, f answer.2)) (call.meanwhile σ)
    simp only [reports, hb, Script.run_bind, hi]
    cases (b call.fuel call.callback call.self c).run call.self (call.meanwhile σ) with
    | mk answer after =>
      cases answer with
      | error crash => rfl
      | ok answer => simp only [Script.run, hc, ih]

theorem Performer.finished_chain (p : Performer κ ω α) : p.chain.finished = p.finished := by
  obtain ⟨name, attached, finished, stage⟩ := p
  cases stage <;> cases finished <;> rfl

/-- In every history of its callbacks, whatever the host's functions do and whatever happens between
the calls, a chain built from a structured program does in each call what the structured interpreter
does, one interaction after the other, and ends the call alike. Of a call that does not return this
holds however far it is followed. -/
theorem structured_history [Named κ] (act : α → Caller → Script κ ω (Except Failure Unit))
    (program : Program κ ω α) (name : String) (calls : List (Call κ ω)) (σ : Setting κ ω) :
    reports (Chain.behaviour act) (·.finished) calls
        (program.commands.foldl Chain.append { name }) σ =
      reports (Performer.behaviour act) (·.finished) calls { name, stage := .ready program } σ := by
  rw [build_program]
  exact reports_map Performer.chain (Performer.behaviour_chain act) Performer.finished_chain calls
    { name, stage := .ready program } σ

/-- An inner loop counts from the start in every pass of the outer one. -/
example :
    let write (n : Nat) (_ : Caller) : Script Probe (List Nat) (Except Failure Unit) :=
      .consult fun log => .store (log ++ [n]) (.done (.ok ()))
    let inner : Program Probe (List Nat) Nat :=
      .repeatTimes (.value 2) (.simple (.call 1) .done) .done
    let outer := .repeatTimes (.value 2) (.simple (.call 0) inner) .done
    let scene := ((({} : Scene Probe).addEntity "host").2.addComponent ⟨1⟩ {}).2
    ((Spot.run write ⟨⟨1⟩, ⟨1⟩⟩ 0 "nested" 30 { focus := .entering outer }).run ⟨⟨1⟩, ⟨1⟩⟩
      ⟨scene, []⟩).2.world = [0, 1, 1, 0, 1, 1] := by decide +kernel

end FrameChain
