import FrameChain.Proofs.Moment.Sound

set_option autoImplicit false

/-! A station is a point of an update between two callbacks. A recorded update strides from station to
station: a failure ends it at the station whose callback has failed, a crash cuts it off, and every
stride is a stretch of single steps. -/
namespace FrameChain

variable {κ ω τ : Type} [Named κ]

/-- Some callback of the behaviour answers with this failure, in some setting. -/
def Behaviour.Raises (b : Behaviour κ ω) (f : Failure) : Prop :=
  ∃ callback self component component' σ σ',
    (b callback self component).run self σ = (.ok (.error f, component'), σ')

def Phase.attaches {κ : Type} : Phase κ → Bool
  | attaching _ | initializing .. | initialized .. | joining .. | joined .. => true
  | _ => false

/-- Where an update stands between two callbacks. -/
structure Station (κ ω : Type) where
  phase : Phase κ
  setting : Setting κ (ω × Journal κ)

namespace Station

def moment (g : Station κ ω) : Moment κ := ⟨g.phase, none, g.setting.scene, g.setting.world.2⟩

/-- The callback that is due runs, from the component in its slot to this outcome. -/
structure Plays (b : Behaviour κ ω) (g : Station κ ω) (callback : Callback) (caller : Caller)
    (component : κ) (outcome : Except Crash (Except Failure Unit × κ))
    (after : Setting κ (ω × Journal κ)) : Prop where
  due : g.phase.callee = some (callback, caller.component)
  seat : ∃ slot, g.setting.scene.slot? caller.component = some slot ∧ slot.owner = caller.entity ∧
    slot.component = some component
  run : (b.recorded callback caller component).run caller
    { g.setting with scene := g.setting.scene.takeOut caller.component } = (outcome, after)

def CutOff (b : Behaviour κ ω) (g : Station κ ω) (σ : Setting κ (ω × Journal κ)) : Prop :=
  (g.phase.callee = none ∧ g.setting = σ) ∨
    ∃ callback self component crash, g.Plays b callback self component (.error crash) σ

end Station

inductive Stride (b : Behaviour κ ω) : Station κ ω → Station κ ω → Prop
  | move {p p' : Phase κ} {σ : Setting κ (ω × Journal κ)} (h : Move σ.scene p p') :
      Stride b ⟨p, σ⟩ ⟨p', σ⟩
  | act {p p' : Phase κ} {σ : Setting κ (ω × Journal κ)} {s' : Scene κ} {marks : Journal κ}
      (h : Act σ.scene p p' s' marks) : Stride b ⟨p, σ⟩ ⟨p', s', σ.world.1, σ.world.2 ++ marks⟩
  | called {g : Station κ ω} {callback : Callback} {self : Caller} {component component' : κ}
      {σ : Setting κ (ω × Journal κ)}
      (h : g.Plays b callback self component (.ok (.ok (), component')) σ) :
      Stride b g ⟨g.phase.next, { σ with scene := σ.scene.putBack self.component component' }⟩

inductive Falls (b : Behaviour κ ω) (f : Failure) : Station κ ω → Station κ ω → Prop
  | failed {g : Station κ ω} {callback : Callback} {self : Caller} {component component' : κ}
      {σ : Setting κ (ω × Journal κ)}
      (h : g.Plays b callback self component (.ok (.error f, component')) σ) :
      Falls b f g ⟨.idle, g.phase.recover (σ.scene.putBack self.component component'), σ.world.1,
        σ.world.2 ++ g.phase.losses⟩

section Steps

variable {b : Behaviour κ ω} {g g' : Station κ ω} {m₀ : Moment κ}

theorem Script.keeps_recorded {P : Moment κ → Prop} {p : Phase κ} {self : Caller}
    (hask : ∀ s j r, P ⟨p, some self, s, j⟩ →
      P ⟨p, some self, (r.answer self s).2, j ++ [.asked self s r (r.answer self s).1]⟩)
    (q : Script κ ω τ) {σ : Setting κ (ω × Journal κ)} (h : P ⟨p, some self, σ.scene, σ.world.2⟩) :
    P ⟨p, some self, ((q.recorded self).run self σ).2.scene,
      ((q.recorded self).run self σ).2.world.2⟩ := by
  induction q generalizing σ with
  | done a => exact h
  | crash c => exact h
  | look next ih => exact ih _ h
  | ask r next ih => exact ih _ (hask _ _ r h)
  | consult next ih => exact ih _ h
  | store w next ih => exact ih h

theorem Station.Plays.keeps {P : Moment κ → Prop} {callback : Callback} {self : Caller}
    {component : κ} {outcome : Except Crash (Except Failure Unit × κ)}
    {σ : Setting κ (ω × Journal κ)} (h : g.Plays b callback self component outcome σ)
    (hP : ∀ m m', P m → Onward m m' → m'.phase = g.phase → m'.calling = some self → P m')
    (hg : P g.moment) : P ⟨g.phase, some self, σ.scene, σ.world.2⟩ := by
  obtain ⟨slot, hslot, howner, _⟩ := h.seat
  have hcall : Onward g.moment ⟨g.phase, some ⟨slot.owner, self.component⟩,
      g.setting.scene.takeOut self.component, g.setting.world.2 ++
        [.called callback ⟨slot.owner, self.component⟩ (g.setting.scene.takeOut self.component)]⟩ :=
    .call h.due hslot
  rw [howner] at hcall
  have hrun := (b callback self component).keeps_recorded (P := P) (p := g.phase)
    (σ := ⟨g.setting.scene.takeOut self.component, g.setting.world.1, g.setting.world.2 ++
      [.called callback self (g.setting.scene.takeOut self.component)]⟩)
    (fun s j r hs => hP _ _ hs (.ask r) rfl rfl) (hP _ _ hg hcall rfl rfl)
  have hsame := congrArg Prod.snd h.run
  change ((b callback self component).recorded self |>.run self _).2 = σ at hsame
  rwa [hsame] at hrun

theorem Station.Plays.stretch {callback : Callback} {self : Caller} {component : κ}
    {outcome : Except Crash (Except Failure Unit × κ)} {σ : Setting κ (ω × Journal κ)}
    (h : g.Plays b callback self component outcome σ) :
    Stretch g.moment ⟨g.phase, some self, σ.scene, σ.world.2⟩ :=
  h.keeps (fun _ _ hm ho _ _ => hm.tail ho) .refl

theorem Station.CutOff.stretch {σ : Setting κ (ω × Journal κ)} (h : g.CutOff b σ) :
    ∃ calling, Stretch g.moment ⟨g.phase, calling, σ.scene, σ.world.2⟩ ∧
      (calling = none → g.phase.callee = none) := by
  rcases h with ⟨hp, rfl⟩ | ⟨callback, self, component, crash, hplays⟩
  · exact ⟨none, .refl, fun _ => hp⟩
  · exact ⟨some self, hplays.stretch, nofun⟩

theorem Stride.stretch (h : Stride b g g') : Stretch g.moment g'.moment := by
  cases h with
  | move h => exact .single (.move h)
  | act h => exact .single (.act h)
  | called h => exact h.stretch.tail (.back _)

theorem stretch_of_strides (h : Relation.ReflTransGen (Stride b) g g') :
    Stretch g.moment g'.moment := by
  induction h with
  | refl => exact .refl
  | tail _ hs ih => exact ih.trans hs.stretch

theorem Falls.path {f : Failure} (h : Falls b f g g') : Path g.moment g'.moment := by
  cases h with
  | failed h => exact h.stretch.path.tail (.fail _)

theorem Falls.raises {f : Failure} (h : Falls b f g g') : b.Raises f := by
  cases h with
  | @failed callback self component component' σ h =>
    have hplain := Script.run_recorded self (b callback self component)
      ⟨g.setting.scene.takeOut self.component, g.setting.world.1, g.setting.world.2 ++
        [.called callback self (g.setting.scene.takeOut self.component)]⟩
    refine ⟨callback, self, component, component', _, σ.erase, hplain.symm.trans ?_⟩
    have hrun := h.run
    change ((b callback self component).recorded self).run self _ = _ at hrun
    rw [hrun]

end Steps

namespace Turn

open Scene

/-- The stations are sound, and strides to phases of this kind do not leave them. -/
structure Closed (b : Behaviour κ ω) (G : Phase κ → Prop) (A : Station κ ω → Prop) : Prop where
  sound : ∀ g, A g → g.moment.Sound
  stride : ∀ g g', A g → Stride b g g' → G g'.phase → A g'

/-- How a turn may end early at one of these stations, where a failure in phase `p` is still to be recovered
from. -/
def Falters (b : Behaviour κ ω) (A : Station κ ω → Prop) (p : Phase κ) (halt : Halt)
    (σ : Setting κ (ω × Journal κ)) : Prop :=
  match halt with
  | .failure f =>
      (∃ g, A g ∧ g.phase.starting = p.starting ∧ g.phase.batch = p.batch ∧
        Falls b f g ⟨.idle, p.recover σ.scene, σ.world.1, σ.world.2 ++ p.losses⟩) ∧
        ∀ callback id, p.callee = some (callback, id) → ∃ t, σ.scene.slot? id = some t
  | .crash _ => ∃ g, A g ∧ g.CutOff b σ

/-- How a turn may end early at one of these stations, with nothing left to recover from. -/
def Ceases (b : Behaviour κ ω) (A : Station κ ω → Prop) (halt : Halt)
    (σ : Setting κ (ω × Journal κ)) : Prop :=
  match halt with
  | .failure f => ∃ g, A g ∧ Falls b f g ⟨.idle, σ⟩
  | .crash _ => ∃ g, A g ∧ g.CutOff b σ

def Drops (b : Behaviour κ ω) (A : Station κ ω → Prop) (doomed : List EntityId) (halt : Halt)
    (σ : Setting κ (ω × Journal κ)) : Prop :=
  match halt with
  | .failure f => ∃ g, A g ∧
      Falls b f g ⟨.idle, σ.scene, σ.world.1, σ.world.2 ++ [.forgotten doomed]⟩
  | .crash _ => ∃ g, A g ∧ g.CutOff b σ

def Breaks (b : Behaviour κ ω) (A : Station κ ω → Prop) (halt : Halt)
    (σ : Setting κ (ω × Journal κ)) : Prop :=
  match halt with
  | .failure f => ∃ g id, A g ∧ g.phase.starting = some id ∧ Falls b f g ⟨.idle, σ⟩
  | .crash _ => ∃ g, A g ∧ g.CutOff b σ

section Closed

variable {b : Behaviour κ ω} {G : Phase κ → Prop} {A : Station κ ω → Prop}

theorem ceases_of_breaks {halt : Halt} {σ : Setting κ (ω × Journal κ)} (h : Breaks b A halt σ) :
    Ceases b A halt σ := by
  cases halt with
  | failure f =>
    obtain ⟨g, _, hA, -, hf⟩ := h
    exact ⟨g, hA, hf⟩
  | crash c => exact h

theorem ceases_of_falters {halt : Halt} {p : Phase κ} {σ : Setting κ (ω × Journal κ)}
    (hr : ∀ s, p.recover s = s) (hl : p.losses = []) (h : Falters b A p halt σ) :
    Ceases b A halt σ := by
  cases halt with
  | failure f =>
    obtain ⟨⟨g, hA, -, -, hf⟩, -⟩ := h
    rw [hr, hl, List.append_nil] at hf
    exact ⟨g, hA, hf⟩
  | crash c => exact h

theorem Closed.act {p p' : Phase κ} {s' : Scene κ} {σ : Setting κ (ω × Journal κ)} (h : Closed b G A)
    (hA : A ⟨p, σ⟩) (ha : Act σ.scene p p' s' []) (hp : G p') : A ⟨p', { σ with scene := s' }⟩ := by
  have hs := h.stride _ _ hA (.act ha) hp
  rwa [List.append_nil] at hs

theorem Closed.triple_call (h : Closed b G A) {p : Phase κ} {callback : Callback} {id : ComponentId}
    (hp : p.callee = some (callback, id)) (hnext : G p.next) :
    Triple (fun σ => A ⟨p, σ⟩) (call b.recorded callback id) (fun _ σ => A ⟨p.next, σ⟩)
      (Falters b A p) := by
  unfold call
  refine triple_scene fun s => ?_
  cases hslot : s.slot? id with
  | none =>
    -- The component that is called has a slot.
    intro σ ⟨hA, hs⟩
    obtain ⟨t, ht⟩ := (h.sound _ hA).ready.callee hp
    change σ.scene.slot? id = some t at ht
    rw [hs, hslot] at ht
    cases ht
  | some slot =>
    cases hc : slot.component with
    | none =>
      -- No callback is running, so the component is in its slot.
      intro σ ⟨hA, hs⟩
      have hmem : slot ∈ σ.scene.slots := hs ▸ Scene.slot?_mem hslot
      obtain ⟨component, hsome⟩ := (h.sound _ hA).scene.component_isSome hmem
      rw [hc] at hsome
      cases hsome
    | some component =>
      simp only [hc]
      intro σ ⟨hA, hs⟩
      have hseat : ∃ t, σ.scene.slot? id = some t ∧ t.owner = slot.owner ∧
          t.component = some component := ⟨slot, hs.symm ▸ hslot, rfl, hc⟩
      cases hrun : (b.recorded callback ⟨slot.owner, id⟩ component).run ⟨slot.owner, id⟩
          { σ with scene := σ.scene.takeOut id } with
      | mk answer σ' =>
        have hscript : (b.recorded callback ⟨slot.owner, id⟩ component).run ⟨slot.owner, id⟩
            { σ with scene := σ.scene.modifySlot id fun slot => { slot with component := none } } =
              (answer, σ') := hrun
        simp only [outcome_bind, outcome_modifyScene, outcome_script, hscript]
        cases answer with
        | error crash =>
          have hcrash : Station.Plays b ⟨p, σ⟩ callback ⟨slot.owner, id⟩ component (.error crash) σ' :=
            ⟨hp, hseat, hrun⟩
          exact ⟨⟨p, σ⟩, hA, .inr ⟨callback, ⟨slot.owner, id⟩, component, crash, hcrash⟩⟩
        | ok answer =>
          obtain ⟨answer, component'⟩ := answer
          cases answer with
          | ok u => exact h.stride _ _ hA (.called (g := ⟨p, σ⟩) ⟨hp, hseat, hrun⟩) hnext
          | error f =>
            have hplays : Station.Plays b ⟨p, σ⟩ callback ⟨slot.owner, id⟩ component
              (.ok (.error f, component')) σ' := ⟨hp, hseat, hrun⟩
            refine ⟨⟨⟨p, σ⟩, hA, rfl, rfl, .failed hplays⟩, fun c x hx => ?_⟩
            have hsound := (h.sound _ hA).along hplays.stretch.path
            obtain ⟨t, ht⟩ := hsound.ready.callee hx
            obtain ⟨t', ht', _⟩ := follows_modifySlot σ'.scene id
              (fun slot => { slot with component := some component' }) (fun _ => rfl) (fun _ => rfl)
              (fun _ => rfl) x t ht
            exact ⟨t', ht'⟩

variable (h : Closed b G A)

include h

section Attaching

variable (hG : ∀ p, p.attaches = true → G p)

include hG

theorem Closed.triple_advance_init (id : ComponentId) (batch : List ComponentId)
    {E : Halt → Setting κ (ω × Journal κ) → Prop} :
    Triple (fun σ => A ⟨.initialized id batch, σ⟩) (Scene.advance id .new .initialized)
      (fun moved σ => A ⟨if moved then .joining id batch else .attaching batch, σ⟩) E := by
  unfold Scene.advance
  refine triple_scene fun s => ?_
  cases hslot : s.slot? id with
  | none =>
    refine triple_pure fun σ ⟨hA, hs⟩ => h.stride _ _ hA (.move (.overtakenInit fun slot heq => ?_))
      (hG _ rfl)
    rw [hs, hslot] at heq
    cases heq
  | some slot =>
    refine triple_ite (fun hstate => ?_) fun hstate => ?_
    · intro σ ⟨hA, hs⟩
      exact h.act hA (.initialized (hs.symm ▸ hslot) hstate) (hG _ rfl)
    · refine triple_pure fun σ ⟨hA, hs⟩ => h.stride _ _ hA (.move (.overtakenInit fun slot' heq => ?_))
        (hG _ rfl)
      rw [hs, hslot] at heq
      cases heq
      exact hstate

theorem Closed.triple_call_init (id : ComponentId) (batch : List ComponentId) :
    Triple (fun σ => A ⟨.initializing id batch, σ⟩) (call b.recorded .init id)
      (fun _ σ => A ⟨.initialized id batch, σ⟩) (Falters b A (.initializing id batch)) :=
  h.triple_call rfl (hG _ rfl)

/-- A failure of `attach` is recovered from as one of `init`. -/
theorem Closed.triple_call_attach (id : ComponentId) (batch : List ComponentId) :
    Triple (fun σ => A ⟨.joining id batch, σ⟩) (call b.recorded .attach id)
      (fun _ σ => A ⟨.joined id batch, σ⟩) (Falters b A (.initializing id batch)) := by
  refine (h.triple_call rfl (hG _ rfl)).imp (fun _ hA => hA) (fun _ _ hA => hA) fun halt σ hend => ?_
  cases halt with
  | failure f =>
    obtain ⟨hf, hslot⟩ := hend
    refine ⟨hf, fun callback x hx => ?_⟩
    cases hx
    exact hslot .attach id rfl
  | crash c => exact hend

theorem Closed.triple_run (id : ComponentId) (batch : List ComponentId)
    {E : Halt → Setting κ (ω × Journal κ) → Prop} :
    Triple (fun σ => A ⟨.joined id batch, σ⟩)
      (do
        if ← Scene.advance id .initialized .running then
          match (← scene).slot? id with
          | some slot =>
            modifyScene fun s => s.log (.componentAttached s.frame slot.owner id slot.name)
          | none => return)
      (fun _ σ => A ⟨.attaching batch, σ⟩) E := by
  unfold Scene.advance
  intro σ hA
  simp only [outcome_bind, outcome_scene]
  cases hslot : σ.scene.slot? id with
  | none =>
    refine h.stride _ _ hA (.move (.overtakenAttach fun slot heq => ?_)) (hG _ rfl)
    rw [hslot] at heq
    cases heq
  | some slot =>
    by_cases hstate : slot.state = .initialized
    · have hnow : (σ.scene.setState id .running).slot? id = some { slot with state := .running } :=
        slot?_modifySlot_self hslot _ fun _ => rfl
      have hrun := h.act hA (.run hslot hstate) (hG _ rfl)
      unfold Scene.setState at hnow hrun
      simp only [if_pos hstate, outcome_bind, outcome_modifyScene, outcome_pure, if_true,
        outcome_scene, hnow]
      exact hrun
    · simp only [if_neg hstate]
      refine h.stride _ _ hA (.move (.overtakenAttach fun slot' heq => ?_)) (hG _ rfl)
      rw [hslot] at heq
      cases heq
      exact hstate

theorem Closed.triple_attachOne (id : ComponentId) (batch : List ComponentId) :
    Triple (fun σ => A ⟨.attaching (id :: batch), σ⟩) (attachOne b.recorded id)
      (fun _ σ => A ⟨.attaching batch, σ⟩) (Falters b A (.initializing id batch)) := by
  unfold attachOne
  refine triple_scene fun s => triple_ite (fun hnew => ?_) fun hnew => ?_
  · refine triple_bind (Q := fun _ σ => A ⟨.initializing id batch, σ⟩) ?_ fun _ => ?_
    · intro σ ⟨hA, hs⟩
      exact h.act hA (.start (hs.symm ▸ hnew)) (hG _ rfl)
    refine triple_bind (h.triple_call_init hG id batch) fun _ => ?_
    refine triple_bind (h.triple_advance_init hG id batch) fun moved => ?_
    refine triple_ite (fun hmoved => ?_) fun hmoved => ?_
    · subst hmoved
      refine triple_bind (h.triple_call_attach hG id batch) fun _ => h.triple_run hG id batch
    · refine triple_pure fun σ hA => ?_
      simpa [hmoved] using hA
  · refine triple_pure fun σ ⟨hA, hs⟩ => h.stride _ _ hA (.move (.passOver (hs.symm ▸ hnew))) (hG _ rfl)

/-- The failing component is detached and the rest of the batch goes back, as the fall says. -/
theorem Closed.triple_attachEach (batch : List ComponentId) :
    Triple (fun σ => A ⟨.attaching batch, σ⟩) (attachEach b.recorded batch)
      (fun _ σ => A ⟨.attaching [], σ⟩) (Breaks b A) := by
  induction batch with
  | nil => exact triple_pure fun _ hA => hA
  | cons id batch ih =>
    refine triple_bind (Q := fun answer σ => match answer with
      | .ok _ => A ⟨.attaching batch, σ⟩
      | .error f => Falters b A (.initializing id batch) (.failure f) σ) ?_ fun answer => ?_
    · refine triple_attempt ((h.triple_attachOne hG id batch).imp (fun _ hA => hA) (fun _ _ hA => hA) ?_)
      intro halt σ hend
      cases halt with
      | failure f => exact hend
      | crash c => exact hend
    · cases answer with
      | ok u => exact ih
      | error f =>
        intro σ hend
        obtain ⟨⟨g, hA, hstarting, _, hf⟩, hslot⟩ := hend
        obtain ⟨t, ht⟩ := hslot .init id rfl
        have hstop : σ.scene.stop id .detached = (.ok (), (σ.scene.stop id .detached).2) := by
          simp only [Scene.stop, ht]
        simp only [outcome_bind, outcome_perform, outcome_modifyScene, outcome_fail]
        rw [hstop]
        rw [show (Phase.initializing id batch : Phase κ).losses = [] from rfl, List.append_nil] at hf
        exact ⟨g, id, hA, hstarting, hf⟩

end Attaching

section Delivering

variable (late : Bool)
  (hG : ∀ p : Phase κ, p.period? = some (if late then .redelivering else .delivering) → G p)

include hG

theorem Closed.triple_serve (m : Message) (recipients : List Subscription) :
    Triple (fun σ => A ⟨.serving late m recipients, σ⟩) (serveRecorded b m recipients)
      (fun _ σ => A ⟨.serving late m [], σ⟩) (Ceases b A) := by
  induction recipients with
  | nil => exact triple_pure fun _ hA => hA
  | cons recipient rest ih =>
    refine triple_scene fun s => triple_ite (fun haccepts => ?_) fun haccepts => ?_
    · refine triple_bind (Q := fun _ σ => A ⟨.reaching late m recipient rest, σ⟩) ?_ fun _ => ?_
      · intro σ ⟨hA, hs⟩
        exact h.stride _ _ hA (.act (.serve (hs.symm ▸ haccepts))) (hG _ rfl)
      refine triple_bind (Q := fun answer σ => match answer with
        | .ok _ => A ⟨.serving late m rest, σ⟩
        | .error f => Falters b A (.reaching late m recipient rest) (.failure f) σ) ?_ fun answer => ?_
      · refine triple_attempt ((h.triple_call rfl (hG _ rfl)).imp (fun _ hA => hA) (fun _ _ hA => hA) ?_)
        intro halt σ hend
        cases halt with
        | failure f => exact hend
        | crash c => exact hend
      · cases answer with
        | ok u => exact ih
        | error f =>
          intro σ hend
          obtain ⟨⟨g, hA, -, -, hf⟩, -⟩ := hend
          rw [show (Phase.reaching late m recipient rest : Phase κ).losses = [] from rfl,
            List.append_nil] at hf
          exact ⟨g, hA, hf⟩
    · refine triple_bind (Q := fun _ σ => A ⟨.serving late m rest, σ⟩) ?_ fun _ => ih
      intro σ ⟨hA, hs⟩
      exact h.stride _ _ hA (.act (.pass (hs.symm ▸ Bool.eq_false_iff.2 haccepts))) (hG _ rfl)

theorem Closed.triple_deliver (fuel : Nat) :
    Triple (fun σ => A ⟨.dispatching late, σ⟩) (deliverRecorded b fuel)
      (fun _ σ => A ⟨.dispatching late, σ⟩ ∧ σ.scene.nextDelivery? = none) (Ceases b A) := by
  induction fuel with
  | zero => exact triple_crash fun σ hA => ⟨_, hA, .inl ⟨rfl, rfl⟩⟩
  | succ fuel ih =>
    refine triple_scene fun s => ?_
    cases hnext : s.nextDelivery? with
    | none =>
      refine triple_pure fun σ ⟨hA, hs⟩ => ⟨hA, ?_⟩
      rw [hs]
      exact hnext
    | some next =>
      obtain ⟨delivery, s'⟩ := next
      have hrest : Triple (fun σ => A ⟨.serving late delivery.message delivery.recipients, σ⟩)
          (do
            serveRecorded b delivery.message delivery.recipients
            deliverRecorded b fuel)
          (fun _ σ => A ⟨.dispatching late, σ⟩ ∧ σ.scene.nextDelivery? = none) (Ceases b A) := by
        refine triple_bind (h.triple_serve late hG _ _) fun _ => ih.weaken fun σ hA => ?_
        exact h.stride _ _ hA (.move .delivered) (hG _ rfl)
      rcases nextDelivery?_cases hnext with ⟨hi, rfl⟩ | ⟨hi, m, bus, hpop, rfl, rfl⟩
      · simp only [hi, Option.isNone_some, Bool.false_eq_true, if_false]
        refine triple_bind (Q := fun _ σ =>
          A ⟨.serving late delivery.message delivery.recipients, σ⟩) ?_ fun _ => hrest
        intro σ ⟨hA, hs⟩
        exact h.act hA (hs.symm ▸ .resume hi) (hG _ rfl)
      · have hnone : s.interrupted.isNone = true := by rw [hi]; rfl
        simp only [hnone, if_true]
        refine triple_bind (Q := fun _ σ => ∃ j, σ.scene = s ∧
          σ.world.2 = j ++ [.taken s ⟨m, s.bus.subscribers m.key⟩] ∧
            A ⟨.dispatching late, s, σ.world.1, j⟩) ?_ fun _ => ?_
        · intro σ ⟨hA, hs⟩
          subst hs
          exact ⟨σ.world.2, rfl, rfl, hA⟩
        refine triple_bind (Q := fun _ σ =>
          A ⟨.serving late m (s.bus.subscribers m.key), σ⟩) ?_ fun _ => hrest
        intro σ ⟨j, hs, hj, hA⟩
        have htake := h.stride _ _ hA (.act (.take hi hpop)) (hG _ rfl)
        rwa [← hj] at htake

end Delivering

theorem Closed.triple_updateEach (hG : ∀ p : Phase κ, p.period? = some .updating → G p)
    (delta absolute : Seconds) (ids : List ComponentId) :
    Triple (fun σ => A ⟨.updating delta absolute ids, σ⟩) (updateEach b.recorded delta absolute ids)
      (fun _ σ => A ⟨.updating delta absolute [], σ⟩) (Ceases b A) := by
  induction ids with
  | nil => exact triple_pure fun _ hA => hA
  | cons id rest ih =>
    refine triple_scene fun s => ?_
    refine triple_ite (fun hrun => ?_) fun hrun => ?_
    · refine triple_bind (Q := fun _ σ => A ⟨.updating delta absolute rest, σ⟩) ?_ fun _ => ih
      refine (h.triple_call (p := .ticking delta absolute id rest) rfl (hG _ rfl)).imp ?_
        (fun _ _ hA => hA) fun _ _ => ceases_of_falters (fun _ => rfl) rfl
      intro σ ⟨hA, hs⟩
      exact h.stride _ _ hA (.move (.tick (hs.symm ▸ hrun))) (hG _ rfl)
    · refine ih.weaken fun σ ⟨hA, hs⟩ => ?_
      exact h.stride _ _ hA (.move (.skip (hs.symm ▸ hrun))) (hG _ rfl)

section Retiring

variable (hG : ∀ p : Phase κ, p.period? = some .retiring → G p)

include hG

theorem Closed.triple_retireCallbacks (id : ComponentId) (slot : Slot κ) (doomed : List EntityId)
    (rest : List ComponentId) :
    Triple (fun σ => A ⟨.retiring doomed (id :: rest), σ⟩ ∧ σ.scene.slot? id = some slot)
      (retireCallbacks b.recorded slot) (fun _ σ => A ⟨.dropping slot doomed rest, σ⟩)
      (Drops b A doomed) := by
  have hdrops : ∀ {p : Phase κ}, (∀ s, p.recover s = s) → p.losses = [.forgotten doomed] →
      ∀ halt σ, Falters b A p halt σ → Drops b A doomed halt σ := by
    intro p hr hl halt σ hend
    cases halt with
    | failure f =>
      obtain ⟨⟨g, hA, -, -, hf⟩, -⟩ := hend
      rw [hr, hl] at hf
      exact ⟨g, hA, hf⟩
    | crash c => exact hend
  have hremove : Triple (fun σ => A ⟨.removing slot doomed rest, σ⟩) (call b.recorded .remove slot.id)
      (fun _ σ => A ⟨.dropping slot doomed rest, σ⟩) (Drops b A doomed) :=
    (h.triple_call rfl (hG _ rfl)).imp (fun _ hA => hA) (fun _ _ hA => hA)
      (hdrops (fun _ => rfl) rfl)
  have hending : ∀ callback, callback = (if slot.state = .finished then .finish else .detach) →
      (slot.state = .finished ∨ slot.state = .detached) → slot.initialized = true →
      Triple (fun σ => A ⟨.retiring doomed (id :: rest), σ⟩ ∧ σ.scene.slot? id = some slot)
        (call b.recorded callback slot.id) (fun _ σ => A ⟨.removing slot doomed rest, σ⟩)
        (Drops b A doomed) := by
    intro callback hcallback hstate hi
    subst hcallback
    refine (h.triple_call (p := .ending slot doomed rest) rfl (hG _ rfl)).imp ?_ (fun _ _ hA => hA)
      (hdrops (fun _ => rfl) rfl)
    intro σ ⟨hA, hslot⟩
    exact h.stride _ _ hA (.move (.endHook hslot hi hstate)) (hG _ rfl)
  unfold retireCallbacks
  refine triple_ite (fun hi => ?_) fun hi => ?_
  · cases hstate : slot.state with
    | finished =>
      exact triple_bind (hending .finish (by simp [hstate]) (.inl hstate) hi) fun _ => hremove
    | detached =>
      exact triple_bind (hending .detach (by simp [hstate]) (.inr hstate) hi) fun _ => hremove
    | _ =>
      -- What is retired has stopped, and no slot is kept that has been removed.
      intro σ ⟨hA, hslot⟩
      have hsound := h.sound _ hA
      obtain ⟨t, ht, hdone⟩ := Scene.Stopped.done hsound.ready id List.mem_cons_self
      change σ.scene.slot? id = some t at ht
      rw [hslot] at ht
      cases ht
      rw [hstate] at hdone
      first
        | exact absurd hstate (hsound.scene.fits slot (slot?_mem hslot)).present
        | cases hdone
  · refine triple_pure fun σ ⟨hA, hslot⟩ => h.stride _ _ hA (.move (.unseen hslot ?_)) (hG _ rfl)
    simpa using hi

theorem Closed.triple_retireEach (doomed : List EntityId) (ids : List ComponentId) :
    Triple (fun σ => A ⟨.retiring doomed ids, σ⟩) (retireEach b.recorded ids)
      (fun _ σ => A ⟨.retiring doomed [], σ⟩) (Drops b A doomed) := by
  induction ids with
  | nil => exact triple_pure fun _ hA => hA
  | cons id rest ih =>
    refine triple_bind ?_ fun _ => ih
    refine triple_scene fun s => ?_
    cases hslot : s.slot? id with
    | none =>
      intro σ ⟨hA, hs⟩
      obtain ⟨t, ht, _⟩ := Scene.Stopped.done (h.sound _ hA).ready id List.mem_cons_self
      change σ.scene.slot? id = some t at ht
      rw [hs, hslot] at ht
      cases ht
    | some slot =>
      refine triple_bind ((h.triple_retireCallbacks hG id slot doomed rest).weaken ?_) fun _ => ?_
      · intro σ ⟨hA, hs⟩
        exact ⟨hA, hs.symm ▸ hslot⟩
      · intro σ hA
        exact h.act hA .drop (hG _ rfl)

theorem Closed.triple_retireRounds (fuel : Nat) :
    Triple (fun σ => A ⟨.settling, σ⟩) (retireRoundsRecorded b fuel)
      (fun _ σ => A ⟨.settling, σ⟩ ∧ σ.scene.removalQueue = [] ∧ σ.scene.stopping = [])
      (Ceases b A) := by
  induction fuel with
  | zero => exact triple_crash fun σ hA => ⟨_, hA, .inl ⟨rfl, rfl⟩⟩
  | succ fuel ih =>
    refine triple_scene fun s => ?_
    refine triple_bind (Q := fun _ σ => σ.scene = s.detachDoomed ∧
      A ⟨.settling, s, σ.world⟩) ?_ fun _ => ?_
    · intro σ ⟨hA, hs⟩
      subst hs
      exact ⟨rfl, hA⟩
    refine triple_scene fun s' => triple_ite (fun hquiet => ?_) fun _ => ?_
    · refine triple_pure fun σ ⟨⟨hscene, hA⟩, hs⟩ => ?_
      rw [Bool.and_eq_true, List.isEmpty_iff, List.isEmpty_iff] at hquiet
      obtain ⟨hdoomed, hstopping⟩ := hquiet
      have hsame : s.detachDoomed = s := by
        unfold Scene.detachDoomed
        rw [hdoomed, List.foldl_nil, ← hdoomed]
      rw [hsame] at hscene
      obtain rfl : s = s' := hscene.symm.trans hs
      rw [← hscene] at hA hdoomed hstopping
      exact ⟨hA, hdoomed, hstopping⟩
    · refine triple_bind (Q := fun answer σ => match answer with
        | .ok _ => A ⟨.retiring s.removalQueue [], σ⟩
        | .error f => Drops b A s.removalQueue (.failure f) σ) ?_ fun answer => ?_
      · refine triple_attempt ((h.triple_retireEach hG s.removalQueue s'.stopping).imp ?_
          (fun _ _ hA => hA) ?_)
        · intro σ ⟨⟨hscene, hA⟩, hs⟩
          have hround := h.act hA .round (hG _ rfl)
          rw [← hs]
          rwa [← hscene] at hround
        · intro halt σ hend
          cases halt with
          | failure f => exact hend
          | crash c => exact hend
      · cases answer with
        | ok u =>
          refine triple_bind (Q := fun _ σ => A ⟨.settling, σ⟩) ?_ fun _ => ih
          intro σ hA
          exact h.act hA .clear (hG _ rfl)
        | error f =>
          exact fun σ hend => hend

end Retiring

section Periods

variable (hG : ∀ p : Phase κ, p ≠ .idle → G p)

include hG

omit h [Named κ] in
theorem period_busy {period : Period} : ∀ p : Phase κ, p.period? = some period → G p :=
  fun _ hp => hG _ (by rintro rfl; cases hp)

theorem Closed.triple_attached (fuel : Nat) (delta absolute : Seconds) :
    Triple (fun σ => A ⟨.dispatching false, σ⟩)
      (do
        deliverRecorded b fuel
        updateEach b.recorded delta absolute (← scene).running
        deliverRecorded b fuel)
      (fun _ σ => A ⟨.settling, σ⟩) (Ceases b A) := by
  refine triple_bind (h.triple_deliver false (period_busy hG) fuel) fun _ => triple_scene fun s => ?_
  refine triple_bind ((h.triple_updateEach (period_busy hG) delta absolute s.running).weaken ?_)
    fun _ => ?_
  · intro σ ⟨⟨hA, hquiet⟩, hs⟩
    subst hs
    exact h.stride _ _ hA (.move (.quiet hquiet)) (hG _ nofun)
  refine (h.triple_deliver true (period_busy hG) fuel).imp ?_ ?_ fun _ _ hend => hend
  · intro σ hA
    exact h.stride _ _ hA (.move .updated) (hG _ nofun)
  · intro _ σ ⟨hA, hquiet⟩
    exact h.stride _ _ hA (.move (.quietAgain hquiet)) (hG _ nofun)

end Periods

end Closed

variable (b : Behaviour κ ω) (g₀ : Station κ ω)

def Arrives (p : Phase κ) (σ : Setting κ (ω × Journal κ)) : Prop :=
  Relation.ReflTransGen (Stride b) g₀ ⟨p, σ⟩

def Quits (halt : Halt) (σ : Setting κ (ω × Journal κ)) : Prop :=
  Ceases b (Relation.ReflTransGen (Stride b) g₀) halt σ

variable {b g₀}

theorem Arrives.stretch {p : Phase κ} {σ : Setting κ (ω × Journal κ)} (h : Arrives b g₀ p σ) :
    Stretch g₀.moment ⟨p, none, σ.scene, σ.world.2⟩ := stretch_of_strides h

theorem Arrives.sound {p : Phase κ} {σ : Setting κ (ω × Journal κ)} (h : Arrives b g₀ p σ)
    (hg : g₀.moment.Sound) : (⟨p, none, σ.scene, σ.world.2⟩ : Moment κ).Sound :=
  hg.along h.stretch.path

theorem Arrives.move {p p' : Phase κ} {σ : Setting κ (ω × Journal κ)} (h : Arrives b g₀ p σ)
    (hm : Move σ.scene p p') : Arrives b g₀ p' σ := h.tail (.move hm)

theorem Arrives.act {p p' : Phase κ} {s' : Scene κ} {marks : Journal κ}
    {σ : Setting κ (ω × Journal κ)} (h : Arrives b g₀ p σ) (ha : Act σ.scene p p' s' marks) :
    Arrives b g₀ p' ⟨s', σ.world.1, σ.world.2 ++ marks⟩ := h.tail (.act ha)

theorem Arrives.settled {σ : Setting κ (ω × Journal κ)} (h : Arrives b g₀ .settling σ)
    (hqueue : σ.scene.removalQueue = []) (hstopping : σ.scene.stopping = []) : Arrives b g₀ .idle σ :=
  h.move (.settled hqueue hstopping)

theorem closed_arrives (hg : g₀.moment.Sound) :
    Closed b (fun _ => True) fun g => Relation.ReflTransGen (Stride b) g₀ g :=
  ⟨fun _ h => hg.along (stretch_of_strides h).path, fun _ _ h hs _ => h.tail hs⟩

theorem triple_attachPending (hg : g₀.moment.Sound) {absolute : Seconds} :
    Triple
      (fun σ => ∃ s, σ.scene = { s with frame := s.frame + 1, absolute } ∧
        Arrives b g₀ .idle ⟨s, σ.world⟩)
      (attachPending b.recorded) (fun _ => Arrives b g₀ (.dispatching false)) (Quits b g₀) := by
  unfold attachPending
  refine triple_scene fun s => ?_
  refine triple_bind (Q := fun _ => Arrives b g₀ (.attaching s.attachQueue)) ?_ fun _ => ?_
  · intro ⟨scene, world⟩ ⟨⟨before, hs, hp⟩, heq⟩
    subst hs
    subst heq
    have hbegin : Act before .idle (.attaching before.attachQueue)
        { before with frame := before.frame + 1, absolute, attachQueue := [] } [] := .begin
    have hb := hp.tail (.act hbegin)
    rwa [List.append_nil] at hb
  · refine ((closed_arrives hg).triple_attachEach (fun _ _ => trivial) _).imp (fun _ h => h) ?_ ?_
    · intro _ σ h
      exact h.tail (.move .attached)
    · exact fun _ _ => ceases_of_breaks

theorem triple_retireEach (hg : g₀.moment.Sound) (doomed : List EntityId) (ids : List ComponentId) :
    Triple (Arrives b g₀ (.retiring doomed ids)) (retireEach b.recorded ids)
      (fun _ => Arrives b g₀ (.retiring doomed []))
      (Drops b (Relation.ReflTransGen (Stride b) g₀) doomed) :=
  (closed_arrives hg).triple_retireEach (fun _ _ => trivial) doomed ids

theorem triple_retireRounds (hg : g₀.moment.Sound) (fuel : Nat) :
    Triple (Arrives b g₀ .settling) (retireRoundsRecorded b fuel)
      (fun _ σ => Arrives b g₀ .settling σ ∧ σ.scene.removalQueue = [] ∧ σ.scene.stopping = [])
      (Quits b g₀) :=
  (closed_arrives hg).triple_retireRounds (fun _ _ => trivial) fuel

theorem triple_attached (hg : g₀.moment.Sound) (fuel : Nat) (delta absolute : Seconds) :
    Triple (Arrives b g₀ (.dispatching false))
      (do
        deliverRecorded b fuel
        updateEach b.recorded delta absolute (← scene).running
        deliverRecorded b fuel)
      (fun _ => Arrives b g₀ .settling) (Quits b g₀) :=
  (closed_arrives hg).triple_attached (fun _ _ => trivial) fuel delta absolute

theorem triple_approachRecorded (hg : g₀.moment.Sound) (fuel : Nat) (delta absolute : Seconds) :
    Triple (Arrives b g₀ .idle) (approachRecorded b fuel delta absolute)
      (fun _ => Arrives b g₀ .settling) (Quits b g₀) := by
  unfold approachRecorded
  refine triple_bind (Q := fun _ σ => ∃ s, σ.scene = { s with frame := s.frame + 1, absolute } ∧
    Arrives b g₀ .idle ⟨s, σ.world⟩) ?_ fun _ => ?_
  · intro σ h
    exact ⟨σ.scene, rfl, h⟩
  exact triple_bind (triple_attachPending hg) fun _ => triple_attached hg fuel delta absolute

theorem triple_updateRecorded (hg : g₀.moment.Sound) (fuel : Nat) (delta absolute : Seconds) :
    Triple (Arrives b g₀ .idle) (updateRecorded b fuel delta absolute)
      (fun _ σ => Arrives b g₀ .settling σ ∧ σ.scene.removalQueue = [] ∧ σ.scene.stopping = [])
      (Quits b g₀) := by
  rw [updateRecorded_eq]
  refine triple_bind (triple_approachRecorded hg fuel delta absolute) fun _ => ?_
  exact triple_scene fun s => (triple_retireRounds hg _).weaken fun _ h => h.1

end Turn
end FrameChain
