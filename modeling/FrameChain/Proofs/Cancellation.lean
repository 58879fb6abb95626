import FrameChain.Proofs.Chain.Heeding
import FrameChain.Proofs.MessageWaits

set_option autoImplicit false

namespace FrameChain

open Chain ChainRun

variable {κ δ ω α : Type}

inductive Declines : List (HostFun ω Bool) → ω → ω → Prop
  | nil (w : ω) : Declines [] w w
  | cons {holds : HostFun ω Bool} {rest : List (HostFun ω Bool)} {w w₁ w₂ : ω}
      (h : holds w = (.ok false, w₁)) (hrest : Declines rest w₁ w₂) : Declines (holds :: rest) w w₂

theorem declines_of_firstHolds {interrupts : List (HostFun ω Bool)} {w w' : ω}
    (h : firstHolds interrupts w = (.ok false, w')) : Declines interrupts w w' := by
  induction interrupts generalizing w with
  | nil =>
    cases h
    exact .nil _
  | cons holds rest ih =>
    rw [firstHolds] at h
    cases hfirst : holds w with
    | mk answer w₁ =>
      rw [hfirst] at h
      cases answer with
      | error crash => cases h
      | ok b =>
        cases b with
        | true => cases h
        | false => exact .cons hfirst (ih h)

theorem exists_of_firstHolds {interrupts : List (HostFun ω Bool)} {w w' : ω} {answer : Except Crash Bool}
    (h : firstHolds interrupts w = (answer, w')) (hne : answer ≠ .ok false) :
    ∃ before holds after w₁, interrupts = before ++ holds :: after ∧ Declines before w w₁ ∧
      holds w₁ = (answer, w') := by
  induction interrupts generalizing w with
  | nil =>
    cases h
    exact absurd rfl hne
  | cons holds rest ih =>
    rw [firstHolds] at h
    cases hfirst : holds w with
    | mk first w₁ =>
      rw [hfirst] at h
      have hlast (heq : (first, w₁) = (answer, w')) : ∃ before holds' after w₂,
          holds :: rest = before ++ holds' :: after ∧ Declines before w w₂ ∧
            holds' w₂ = (answer, w') := ⟨[], holds, rest, w, rfl, .nil w, hfirst.trans heq⟩
      cases first with
      | error crash => exact hlast h
      | ok b =>
        cases b with
        | true => exact hlast h
        | false =>
          obtain ⟨before, last, after, w₂, rfl, hbefore, hl⟩ := ih h
          exact ⟨holds :: before, last, after, w₂, rfl, .cons hfirst hbefore, hl⟩

/-- The chain ends by itself: from here on it only talks to the scene, and then its component has stopped. -/
structure Chain.Quits [Named κ] (self : Caller) (c : Chain κ ω α) (σ : Setting κ (ω × Journal κ))
    (outcome : Except Crash (Except Failure Bool × Chain κ ω α) × Setting κ (ω × Journal κ)) : Prop where
  run : outcome = (complete >>= fun _ => pure false : ChainRun κ ω α Bool).play self c σ
  hushed : ((complete : ChainRun κ ω α Unit).run c).Hushed self σ.erase
  finished : outcome.1 = .ok (.ok false, { c.released with finished := true })
  done : outcome.2.scene.isDone self.component = true

/-- What a round comes to in this setting. It runs its command directly behind the look at its component
and the interrupts, which have all answered no. -/
inductive Chain.Polls [Named κ] (act : α → Caller → Script κ ω (Except Failure Unit)) (self : Caller)
    (absolute : Seconds) (c : Chain κ ω α) (σ : Setting κ (ω × Journal κ)) :
    Except Crash (Except Failure Bool × Chain κ ω α) × Setting κ (ω × Journal κ) → Prop
  | stopped (hd : σ.scene.isDone self.component = true) :
      Polls act self absolute c σ (.ok (.ok false, c), σ)
  | crashed {before after : List (HostFun ω Bool)} {holds : HostFun ω Bool} {w w' : ω} {crash : Crash}
      (ha : σ.Awake self) (hi : c.interrupts = before ++ holds :: after)
      (hbefore : Declines before σ.world.1 w) (hcrash : holds w = (.error crash, w')) :
      Polls act self absolute c σ (.error crash, ⟨σ.scene, w', σ.world.2⟩)
  | interrupted {before after : List (HostFun ω Bool)} {holds : HostFun ω Bool} {w w' : ω}
      {outcome : Except Crash (Except Failure Bool × Chain κ ω α) × Setting κ (ω × Journal κ)}
      (ha : σ.Awake self) (hi : c.interrupts = before ++ holds :: after)
      (hbefore : Declines before σ.world.1 w) (hholds : holds w = (.ok true, w'))
      (hquits : c.Quits self ⟨σ.scene, w', σ.world.2⟩ outcome) : Polls act self absolute c σ outcome
  | completed {w : ω}
      {outcome : Except Crash (Except Failure Bool × Chain κ ω α) × Setting κ (ω × Journal κ)}
      (ha : σ.Awake self) (hi : Declines c.interrupts σ.world.1 w) (hcur : c.current = none)
      (hquits : c.Quits self ⟨σ.scene, w, σ.world.2⟩ outcome) : Polls act self absolute c σ outcome
  | unclosed {w : ω} (ha : σ.Awake self) (hi : Declines c.interrupts σ.world.1 w)
      (hcur : c.current = none) :
      Polls act self absolute c σ
        (.ok (.error (.unterminatedScope c.name c.scopes.depth), c), ⟨σ.scene, w, σ.world.2⟩)
  | command {w : ω} {id : NodeId} (ha : σ.Awake self) (hi : Declines c.interrupts σ.world.1 w)
      (hcur : c.current = some id) :
      Polls act self absolute c σ ((turn act self absolute id).play self c ⟨σ.scene, w, σ.world.2⟩)

namespace ChainRun

variable [Named κ] {act : α → Caller → Script κ ω (Except Failure Unit)} {self : Caller}
  {c : Chain κ ω α} {σ : Setting κ (ω × Journal κ)}

theorem quits_complete (self : Caller) (c : Chain κ ω α) (σ : Setting κ (ω × Journal κ)) :
    c.Quits self σ ((complete >>= fun _ => pure false : ChainRun κ ω α Bool).play self c σ) := by
  refine ⟨rfl, ?_, ?_, ?_⟩
  · simp only [complete, release, scratch, run_bind, run_chain, run_pure, Script.bind]
    cases c.scratch.messageKey with
    | some key => exact .ask (.ask .done)
    | none => exact .ask .done
  · simp only [complete, play_bind, play_release]
    rfl
  · simp only [complete, play_bind, play_release]
    exact Scene.isDone_markStopped _ _ _

theorem polls_round (absolute : Seconds) (self : Caller) (c : Chain κ ω α)
    (σ : Setting κ (ω × Journal κ)) :
    c.Polls act self absolute σ ((round act self absolute).play self c σ) := by
  cases hs : σ.scene.isDone self.component with
  | true =>
    rw [play_round_done hs]
    exact .stopped hs
  | false =>
    rw [play_round absolute hs]
    cases hi : firstHolds c.interrupts σ.world.1 with
    | mk answer w =>
      cases answer with
      | error crash =>
        obtain ⟨before, holds, after, w₁, heq, hbefore, hcrash⟩ := exists_of_firstHolds hi (by rintro ⟨⟩)
        exact .crashed hs heq hbefore hcrash
      | ok b =>
        cases b with
        | true =>
          obtain ⟨before, holds, after, w₁, heq, hbefore, hholds⟩ := exists_of_firstHolds hi (by rintro ⟨⟩)
          exact .interrupted hs heq hbefore hholds (quits_complete self c ⟨σ.scene, w, σ.world.2⟩)
        | false =>
          have hdeclines := declines_of_firstHolds hi
          dsimp only
          cases hcur : c.current with
          | some id => exact .command hs hdeclines hcur
          | none =>
            cases hscopes : c.scopes.isEmpty with
            | true => exact .completed hs hdeclines hcur (quits_complete self c ⟨σ.scene, w, σ.world.2⟩)
            | false => exact .unclosed hs hdeclines hcur

end ChainRun

def Component.isOpenChain : Component δ ω α → Bool
  | chain c => !c.finished
  | _ => false

/-- Only chains that have not finished are given this id. -/
def Journal.Opens [Named δ] (j : Journal (Component δ ω α)) (id : ComponentId) : Prop :=
  ∀ mark ∈ j, ∀ component, mark.introduced? id = some component → component.isOpenChain = true

/-- The host leaves the component a chain, and does not end it by an edit. -/
def HostOp.KeepsOpen (id : ComponentId) : HostOp (Component δ ω α) ω → Prop
  | call (.editComponent component f) => component = id → ∀ c, ∃ c', f (.chain c) = .chain c' ∧
      (c'.finished = true → c.finished = true)
  | _ => True

def Scene.Candid (s : Scene (Component δ ω α)) (id : ComponentId) : Prop :=
  ∀ t, s.slot? id = some t →
    ∃ c, t.component = some (.chain c) ∧ (c.finished = true → s.isDone id = true)

namespace Scene.Candid

variable {id : ComponentId} {s s' : Scene (Component δ ω α)}

theorem retain (h : s.Candid id) (hs : s.Retains id s')
    (hd : s.isDone id = true → s'.isDone id = true) : s'.Candid id := by
  intro t' ht'
  obtain ⟨⟨t, ht, hcomponent⟩, -⟩ := hs t' ht'
  obtain ⟨c, hc, hfinished⟩ := h t ht
  exact ⟨c, hcomponent.trans hc, fun hf => hd (hfinished hf)⟩

theorem of_slots (h : s.Candid id) (hs : s'.slots = s.slots) : s'.Candid id := by
  have hslot : s'.slot? id = s.slot? id := by rw [slot?, slot?, hs]
  intro t ht
  obtain ⟨c, hc, hfinished⟩ := h t (hslot.symm.trans ht)
  refine ⟨c, hc, fun hf => ?_⟩
  rw [isDone_of_slot ht, ← isDone_of_slot (hslot.symm.trans ht)]
  exact hfinished hf

theorem gain {component : Component δ ω α} (hs : Gains id component s')
    (ho : component.isOpenChain = true) : s'.Candid id := by
  intro t ht
  cases component with
  | chain c =>
    refine ⟨c, hs t ht, fun hf => ?_⟩
    rw [Component.isOpenChain, hf] at ho
    cases ho
  | driver d => cases ho
  | custom d => cases ho

theorem modify {f : Slot (Component δ ω α) → Slot (Component δ ω α)} (hid : ∀ t, (f t).id = t.id)
    (hstate : ∀ t, (f t).state = t.state) (hf : ∀ t, s.slot? id = some t →
      ∃ c, (f t).component = some (.chain c) ∧ (c.finished = true → s.isDone id = true)) :
    (s.modifySlot id f).Candid id := by
  intro t' ht'
  rw [slot?_modifySlot s id id f hid] at ht'
  obtain ⟨t, ht, rfl⟩ := Option.map_eq_some_iff.mp ht'
  obtain ⟨c, hc, hfinished⟩ := hf t ht
  refine ⟨c, ?_, fun hend => ?_⟩
  · rwa [if_pos (beq_iff_eq.mpr (slot?_id ht))]
  · rw [s.isDone_modifySlot id id f hid hstate]
    exact hfinished hend

variable [Named δ]

theorem apply (h : s.Candid id) (ht : s.bus.Tidy) (call : HostCall (Component δ ω α))
    (hc : (HostOp.call call : HostOp _ ω).KeepsOpen id)
    (hnew : ∀ component, (Mark.hosted s call).introduced? id = some component →
      component.isOpenChain = true) : (call.apply s).2.Candid id := by
  have hchange := (Scene.change_apply s call).advances
  have hothers (hspares : (HostOp.call call : HostOp _ ω).Spares id)
      (hedit : ∀ f, call ≠ .editComponent id f) : (call.apply s).2.Candid id := by
    rcases retains_apply ht call hspares with hretains | ⟨component, hin, hgains⟩ | ⟨f, hf, -⟩
    · exact h.retain hretains (hretains.isDone hchange)
    · exact gain hgains (hnew component hin)
    · exact absurd hf (hedit f)
  cases call with
  | subscribe key x filter =>
    refine h.of_slots ?_
    simp only [HostCall.apply, subscribe]
    split <;> rfl
  | unsubscribe => exact h.of_slots rfl
  | editComponent x f =>
    by_cases hx : x = id
    · subst hx
      refine modify (fun _ => rfl) (fun _ => rfl) fun t ht => ?_
      obtain ⟨c, hcomponent, hfinished⟩ := h t ht
      obtain ⟨c', hedited, hkept⟩ := hc rfl c
      exact ⟨c', by rw [hcomponent, Option.map_some, hedited], fun hf => hfinished (hkept hf)⟩
    · refine hothers (fun heq => absurd heq hx) fun f' heq => ?_
      cases heq
      exact hx rfl
  | _ => exact hothers trivial (by rintro f ⟨⟩)

theorem recorded {self : Caller} {τ : Type} {out starting : Option ComponentId} {batch : List ComponentId}
    {σ : Setting (Component δ ω α) (ω × Journal (Component δ ω α))} (h : σ.scene.Candid id)
    (hs : σ.scene.Sound out starting batch) (hne : self.component ≠ id)
    (q : Script (Component δ ω α) ω τ)
    (hnew : Journal.Opens ((q.recorded self).run self σ).2.world.2 id) :
    ((q.recorded self).run self σ).2.scene.Candid id := by
  refine Script.recorded_along (P := fun σ => σ.scene.Candid id) ?_ (fun _ _ h => h) q hs h
    (List.prefix_refl _)
  intro σ r hs h hmem
  rcases retains_answer hs.tidy hne r with hretains | ⟨component, hin, hgains⟩
  · exact h.retain hretains (hretains.isDone (σ.scene.change_answer self r).advances)
  · exact gain hgains (hnew _ hmem component hin)

end Scene.Candid

section Callbacks

variable [Named δ] {host : Host δ ω α} {fuel : Nat} {g : Station (Component δ ω α) ω} {self : Caller}
  {callback : Callback} {c : Chain (Component δ ω α) ω α}
  {outcome : Except Crash (Except Failure Unit × Component δ ω α)}
  {σ : Setting (Component δ ω α) (ω × Journal (Component δ ω α))}

theorem Station.heeds_behaviour (hg : g.moment.Timed)
    (hp : g.phase.callee = some (callback, self.component)) (host : Host δ ω α) (fuel : Nat)
    (c : Chain (Component δ ω α) ω α) :
    (Component.behaviour host fuel callback self (.chain c)).Heeds host.act self (fun e σ' =>
      ∃ d, e.2 = .chain d ∧ ((c.finished = true → g.setting.scene.isDone self.component = true) →
        d.Candid host.act self e.1 σ')) (g.enter callback self).erase := by
  obtain ⟨t, ht, htimely, -⟩ := hg.due rfl callback self.component hp
  have hdone := g.setting.scene.isDone_takeOut self.component self.component
  have hstate : g.setting.scene.isDone self.component = t.state.isDone := Scene.isDone_of_slot ht
  have hdue (delta absolute : Seconds) (hc : callback = .update delta absolute) :
      (g.enter callback self).erase.Awake self := by
    subst hc
    have hrun : t.state = .running := htimely
    exact hdone.trans (hstate.trans (by rw [hrun]; rfl))
  have hfarewell (hc : callback = .finish ∨ callback = .detach) :
      (g.enter callback self).erase.scene.isDone self.component = true := by
    refine hdone.trans (hstate.trans ?_)
    rcases hc with rfl | rfl
    · have hend : t.state = .finished := htimely
      rw [hend]
      rfl
    · have hend : t.state = .detached := htimely
      rw [hend]
      rfl
  refine (Chain.heeds_behaviour fuel callback hdue hfarewell).bind fun e σ' he => .done ⟨e.2, rfl, ?_⟩
  exact fun hend => he fun hf => hdone.trans (hend hf)

namespace Scene.Candid

theorem plays_self {component : Component δ ω α} (h : g.setting.scene.Candid self.component)
    (hg : g.moment.Timed)
    (hp : g.Plays (Component.behaviour host fuel) callback self component outcome σ) :
    ∃ c, component = .chain c ∧ ∀ answer component', outcome = .ok (answer, component') →
      ∃ d, component' = .chain d ∧ d.Candid host.act self answer σ.erase := by
  obtain ⟨t, ht, -, hcomponent⟩ := hp.seat
  obtain ⟨c, hc, hfinished⟩ := h t ht
  obtain rfl := Option.some.inj (hcomponent.symm.trans hc)
  refine ⟨c, rfl, ?_⟩
  rintro answer component' rfl
  have hplain := Script.run_recorded self (Component.behaviour host fuel callback self (.chain c))
    (g.enter callback self)
  rw [hp.recorded] at hplain
  obtain ⟨d, hd, hcandid⟩ := (Station.heeds_behaviour hg hp.due host fuel c).ends hplain.symm
  exact ⟨d, hd, hcandid hfinished⟩

theorem answered {id : ComponentId} {component component' : Component δ ω α}
    {answer : Except Failure Unit} (h : g.setting.scene.Candid id) (hg : g.moment.Timed)
    (hsound : g.moment.Sound)
    (hp : g.Plays (Component.behaviour host fuel) callback self component (.ok (answer, component')) σ)
    (hnew : σ.world.2.Opens id) : (σ.scene.putBack self.component component').Candid id := by
  by_cases hid : self.component = id
  · subst hid
    obtain ⟨c, -, hanswer⟩ := h.plays_self hg hp
    obtain ⟨d, rfl, hd⟩ := hanswer answer component' rfl
    exact modify (fun _ => rfl) (fun _ => rfl) fun t _ => ⟨d, rfl, hd.ended⟩
  · have henter : (g.enter callback self).scene.Candid id :=
      h.retain (g.setting.scene.retains_modifySlot _ _ (fun _ => rfl) fun heq => absurd heq hid)
        (g.setting.scene.isDone_takeOut _ id).trans
    obtain rfl : (((Component.behaviour host fuel callback self component).recorded self).run self
      (g.enter callback self)).2 = σ := congrArg Prod.snd hp.recorded
    have hran := henter.recorded (hsound.scene.takeOut self.component) hid _ hnew
    refine hran.retain ?_ (Scene.isDone_putBack _ _ id _).trans
    exact Scene.retains_modifySlot _ _ _ (fun _ => rfl) fun heq => absurd heq hid

theorem leg {id : ComponentId} {ops : List (HostOp (Component δ ω α) ω)}
    {g' : Station (Component δ ω α) ω} (h : g.setting.scene.Candid id) (hg : g.moment.Timed)
    (hsound : g.moment.Sound) (hops : ∀ op ∈ ops, op.KeepsOpen id)
    (hl : Leg (Component.behaviour host fuel) ops g g') (hnew : g'.setting.world.2.Opens id) :
    g'.setting.scene.Candid id := by
  cases hl with
  | stride hs =>
    cases hs with
    | move => exact h
    | act ha => exact h.retain (ha.retains hsound.scene.tidy id) (ha.isDone hsound.scene.tidy)
    | called hp => exact h.answered hg hsound hp hnew
  | fall hf =>
    cases hf with
    | @failed callback self component component' σ hp =>
      have hback := h.answered hg hsound hp fun mark hmem => hnew mark (List.mem_append_left _ hmem)
      have hretains := g.phase.retains_recover (σ.scene.putBack self.component component') id
      exact hback.retain hretains (hretains.isDone (g.phase.advances_recover _))
  | @hosted σ call hc =>
    refine h.apply hsound.scene.tidy call (hops _ hc) fun component hin => ?_
    exact hnew _ (List.mem_append_right _ (List.mem_singleton_self _)) component hin
  | edited => exact h

end Scene.Candid

theorem candid_trail {id : ComponentId} {w : ω} {ops : List (HostOp (Component δ ω α) ω)}
    {past : List (Station (Component δ ω α) ω)}
    (h : Trail (Component.behaviour host fuel) ops ⟨.idle, {}, w, []⟩ past g)
    (hops : ∀ op ∈ ops, op.KeepsOpen id) (hnew : g.setting.world.2.Opens id) :
    ∀ g' ∈ past ++ [g], g'.setting.scene.Candid id := by
  induction h with
  | start =>
    intro g' hmem
    rw [List.mem_singleton.mp hmem]
    rintro t ⟨⟩
  | @step past g g' htrail hleg ih =>
    have hbefore := ih fun mark hmem => hnew mark (hleg.path.journal.subset hmem)
    obtain ⟨moments, hcourse⟩ := Course.of_path htrail.path
    intro g'' hmem
    rcases List.mem_append.mp hmem with hmem | hmem
    · exact hbefore g'' hmem
    · rw [List.mem_singleton.mp hmem]
      exact (hbefore g (List.mem_append_right _ (List.mem_singleton_self g))).leg hcourse.timed
        hcourse.sound hops hleg hnew

theorem Phase.ticking_of_callee {p : Phase κ} {delta absolute : Seconds} {id : ComponentId}
    (h : p.callee = some (.update delta absolute, id)) :
    ∃ rest, p = .ticking delta absolute id rest := by
  cases p with
  | ticking delta' absolute' id' rest =>
    cases h
    exact ⟨rest, rfl⟩
  | ending slot doomed rest =>
    simp only [callee] at h
    split at h <;> cases h
  | _ => cases h

section Steps

variable {delta absolute : Seconds} {n : Nat} {d : Chain (Component δ ω α) ω α}
  {σ' : Setting (Component δ ω α) (ω × Journal (Component δ ω α))}

theorem Station.Plays.paced {b : Behaviour (Component δ ω α) ω}
    (hp : g.Plays b (.update delta absolute) self (.chain c) outcome σ) (ho : c.opening = .ok d) :
    g.Paced host self delta absolute 0 d (g.enter (.update delta absolute) self) := by
  obtain ⟨t, ht, howner, hcomponent⟩ := hp.seat
  exact ⟨Phase.ticking_of_callee hp.due, t, c, d, ht, howner, hcomponent, ho, rfl⟩

theorem Station.Paced.next (h : g.Paced host self delta absolute n c σ)
    (hr : (ChainRun.round host.act self absolute).play self c σ = (.ok (.ok true, d), σ')) :
    g.Paced host self delta absolute (n + 1) d σ' := by
  obtain ⟨t, c₀, e, ht, howner, hcomponent, hopening, hpace⟩ := h.begun
  refine ⟨h.due, t, c₀, e, ht, howner, hcomponent, hopening, ?_⟩
  rw [ChainRun.pace_succ, ChainRun.play_bind, hpace]
  exact hr

end Steps

end Callbacks

/-- Wherever a history comes by, a component that has stopped has not run since. Every callback of a chain
runs functions and actions of the host only as long as its component has not stopped, so none at all behind a
stop. A step goes from round to round, and each round runs its command directly behind the look at the
component and the interrupts, in order, which have all answered no; where one of them holds the component
stops. If the id is given to chains only, before they have finished, and the host does not end them by an
edit, then a chain in its slot has finished only if its component has stopped. Its callbacks say that a chain
has finished only where the action of a call has answered so. -/
theorem cancellation_history [Named δ] (host : Host δ ω α) (fuel : Nat) (w : ω)
    (ops : List (HostOp (Component δ ω α) ω)) (id : ComponentId) :
    let b := Component.behaviour host fuel
    ((recording b w ops).1, (recording b w ops).2.erase) = ending b w ops ∧
    (∃ past last, Trodden b w ops past last) ∧
    ∀ past last, Trodden b w ops past last →
      ((past ++ [last]).Pairwise fun g g' => g.setting.scene.wasIssued id = true →
        g.setting.scene.isDone id = true → g'.setting.scene.isDone id = true) ∧
      ∀ g ∈ past ++ [last],
        (g.setting.scene.isDone id = true →
          ∀ delta absolute, g.phase.callee ≠ some (.update delta absolute, id)) ∧
        (∀ entity callback c outcome σ, g.Plays b callback ⟨entity, id⟩ (.chain c) outcome σ →
          let p := b callback ⟨entity, id⟩ (.chain c)
          let begun := (g.enter callback ⟨entity, id⟩).erase
          p.Heeds host.act ⟨entity, id⟩ (fun _ _ => True) begun ∧
            (g.setting.scene.isDone id = true → p.Hushed ⟨entity, id⟩ begun) ∧
            ∀ delta absolute d, callback = .update delta absolute → c.opening = .ok d →
              g.Paced host ⟨entity, id⟩ delta absolute 0 d (g.enter callback ⟨entity, id⟩)) ∧
        (∀ entity delta absolute n c σ, g.Paced host ⟨entity, id⟩ delta absolute n c σ →
          let round := (ChainRun.round host.act ⟨entity, id⟩ absolute).play ⟨entity, id⟩ c σ
          c.Polls host.act ⟨entity, id⟩ absolute σ round ∧
            (∀ d σ', round = (.ok (.ok true, d), σ') →
              g.Paced host ⟨entity, id⟩ delta absolute (n + 1) d σ') ∧
            ∀ component outcome σ', n ≤ fuel →
              g.Plays b (.update delta absolute) ⟨entity, id⟩ component outcome σ' →
              let rest := (ChainRun.rounds host.act ⟨entity, id⟩ absolute (fuel - n)).play ⟨entity, id⟩ c σ
              outcome = rest.1.map (fun e => (e.1, .chain e.2)) ∧ σ' = rest.2) ∧
        ((∀ op ∈ ops, op.KeepsOpen id) → (recording b w ops).2.world.2.Opens id →
          g.setting.scene.Candid id ∧
          ∀ entity callback component outcome σ, g.Plays b callback ⟨entity, id⟩ component outcome σ →
            ∃ c, component = .chain c ∧ ∀ answer component', outcome = .ok (answer, component') →
              ∃ d, component' = .chain d ∧ d.Candid host.act ⟨entity, id⟩ answer σ.erase) := by
  intro b
  refine ⟨erase_recording b w ops, exists_trodden b w ops, fun past last h => ⟨?_, fun g hmem => ?_⟩⟩
  · refine h.trail.paths.imp_of_mem fun {g g'} hmem _ hpath hi hd => ?_
    obtain ⟨before, htrail⟩ := h.trail.reached g hmem
    obtain ⟨moments, hcourse⟩ := Course.of_path htrail.path
    exact (hpath.forward hcourse.sound).isDone hi hd
  obtain ⟨before, htrail⟩ := h.trail.reached g hmem
  obtain ⟨moments, hcourse⟩ := Course.of_path htrail.path
  refine ⟨?_, ?_, ?_, ?_⟩
  · intro hd delta absolute hdue
    obtain ⟨t, ht, hrun, -⟩ := hcourse.timed.due rfl _ id hdue
    have hstate : t.state = .running := hrun
    have hopen := Scene.isDone_of_slot ht
    rw [hstate] at hopen
    cases hd.symm.trans hopen
  · intro entity callback c outcome σ hp
    have hheeds := Station.heeds_behaviour hcourse.timed hp.due host fuel c
    refine ⟨hheeds.imp fun _ _ _ => trivial, fun hd => ?_, ?_⟩
    · obtain ⟨t, ht, -⟩ := hp.seat
      refine hheeds.hushed ?_ ((g.setting.scene.isDone_takeOut id id).trans hd)
      exact Scene.wasIssued_of_slot hcourse.sound.scene.registered ht
    · rintro delta absolute d rfl ho
      exact hp.paced ho
  · intro entity delta absolute n c σ hpaced
    exact ⟨ChainRun.polls_round absolute _ c σ, fun d σ' hr => hpaced.next hr,
      fun component outcome σ' hn hp => hpaced.plays hn hp⟩
  · intro hops hnew
    have hcandid := candid_trail h.trail hops (fun mark hmark => hnew mark (h.journal.subset hmark)) g hmem
    exact ⟨hcandid, fun entity callback component outcome σ hp => hcandid.plays_self hcourse.timed hp⟩

def leaver : Host Probe Nat Bool where
  respond _ _ probe := .done (.ok (), probe)
  act leaves _ :=
    if leaves then .ask .finish fun _ => .done (.ok ())
    else .consult fun count => .store (count + 1) (.done (.ok ()))

/-- The second call of a chain finishes its component. -/
def leaving : List (HostOp (Component Probe Nat Bool) Nat) :=
  let c : Chain (Component Probe Nat Bool) Nat Bool :=
    [.call false, .call true, .call false].foldl Chain.append { name := "leaving" }
  [.call (.addEntity "host"), .call (.addComponent ⟨1⟩ (.chain c)), .update 9 0 0, .update 9 0 1]

/-- The third call is not run any more. -/
theorem cancellation_history_leaving :
    ∃ past last, Trodden (Component.behaviour leaver 5) 0 leaving past last ∧
      last.setting.world.1 = 1 ∧ last.setting.scene.isDone ⟨1⟩ = true ∧
      (∀ delta absolute, last.phase.callee ≠ some (.update delta absolute, ⟨1⟩)) ∧
      ∀ g ∈ past ++ [last], g.setting.scene.Candid ⟨1⟩ := by
  have hops : ∀ op ∈ leaving, op.KeepsOpen ⟨1⟩ := by
    intro op hop
    simp only [leaving, List.mem_cons, List.not_mem_nil, or_false] at hop
    rcases hop with rfl | rfl | rfl | rfl <;> trivial
  have hnew : (recording (Component.behaviour leaver 5) 0 leaving).2.world.2.Opens ⟨1⟩ := by
    have hall : (recording (Component.behaviour leaver 5) 0 leaving).2.world.2.all (fun mark =>
        (mark.introduced? ⟨1⟩).all Component.isOpenChain) = true := by decide +kernel
    intro mark hmem component hin
    have hmark := List.all_eq_true.mp hall mark hmem
    rwa [hin] at hmark
  obtain ⟨-, ⟨past, last, h⟩, hall⟩ := cancellation_history leaver 5 0 leaving ⟨1⟩
  have hlast := h.ended (by decide +kernel)
  have hdone : last.setting.scene.isDone ⟨1⟩ = true := by
    rw [hlast]
    decide +kernel
  have hworld : last.setting.world.1 = 1 := by
    rw [hlast]
    decide +kernel
  obtain ⟨-, hstations⟩ := hall past last h
  obtain ⟨hidle, -⟩ := hstations last (List.mem_append_right _ (List.mem_singleton_self _))
  exact ⟨past, last, h, hworld, hdone, hidle hdone, fun g hmem => ((hstations g hmem).2.2.2 hops hnew).1⟩

end FrameChain
