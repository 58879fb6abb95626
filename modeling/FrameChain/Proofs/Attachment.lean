import FrameChain.Proofs.Moment.Attaching
import FrameChain.Proofs.Moment.Halts

set_option autoImplicit false

/-! An attach pass takes the attach queue as its batch, while callbacks put newcomers into the queue.
When a callback fails, the pass gives up its component and puts the rest of the batch back in front of
them. -/
namespace FrameChain

variable {κ ω : Type} [Named κ]

namespace Scene

open Turn

def attachPass (b : Behaviour κ ω) (absolute : Seconds) : Turn κ ω Unit := do
  modifyScene fun s => { s with frame := s.frame + 1, absolute }
  attachPending b

def remainder (b : Behaviour κ ω) (fuel : Nat) (delta absolute : Seconds) :
    Turn κ (ω × Journal κ) Unit := do
  deliverRecorded b fuel
  updateEach b.recorded delta absolute (← scene).running
  deliverRecorded b fuel
  retireRecorded b

theorem updateRecorded_eq_attachPass (b : Behaviour κ ω) (fuel : Nat) (delta absolute : Seconds) :
    updateRecorded b fuel delta absolute =
      attachPass b.recorded absolute >>= fun _ => remainder b fuel delta absolute := by
  simp only [updateRecorded, attachPass, remainder, bind_assoc]

omit [Named κ] in
def HasStopped (s : Scene κ) (id : ComponentId) : Prop :=
  ∃ a, s.lifecycle? id = some a ∧ a.isDone = true

end Scene

theorem Step.stopped {m m' : Moment κ} (hs : Step m m') (hp : m.phase.dropped? = none)
    {id : ComponentId} (h : m'.scene.HasStopped id) :
    m.scene.HasStopped id ∨ ∃ ending, Halts id ending m m' := by
  obtain ⟨a, ha, hd⟩ := h
  rcases Scene.lifecycle?_cases ha with ⟨t', ht', rfl⟩ | ⟨hn, hi, rfl⟩
  · rcases hs.slot_of_slot? ht' with hfresh | ⟨t, ht⟩
    · rw [hfresh.state] at hd
      cases hd
    · cases hdone : t.state.isDone with
      | true => exact .inl ⟨_, Scene.lifecycle?_of_slot ht, hdone⟩
      | false =>
        obtain ⟨ending, hhalts, -⟩ := hs.halts ht hdone ht' hd
        exact .inr ⟨ending, hhalts⟩
  · rcases hs.advances with hadv | ⟨slot, hslot, -⟩
    · obtain ⟨hn', hi'⟩ := (hadv.gone_iff id).1 ⟨hn, hi⟩
      exact .inl ⟨_, Scene.lifecycle?_of_gone hn' hi', rfl⟩
    · cases hp.symm.trans hslot

theorem Halts.attached {id : ComponentId} {ending : Scene.Ending} {m m' : Moment κ} {self : Caller}
    (h : Halts id ending m m') (hc : m.calling = some self) (hc' : m'.calling = none) :
    m.phase.attached? = some id := by
  cases h with
  | failed hp _ => exact hp
  | hosted | evicted => cases hc
  | asked => cases hc'

def Journal.AsksStop (marks : Journal κ) (id : ComponentId) : Prop :=
  ∃ self s r reply ending, Mark.asked self s r reply ∈ marks ∧ r.stop? self = some (id, ending)

omit [Named κ] in
theorem Phase.dropped_of_attaches {p : Phase κ} (h : p.attaches = true) : p.dropped? = none := by
  cases p <;> first | rfl | cases h

structure Moment.Passes (s₀ : Scene κ) (j₀ : Journal κ) (m : Moment κ) : Prop where
  attaches : m.phase.attaches = true
  batch : ∃ done, s₀.attachQueue = done ++ (m.phase.starting.toList ++ m.phase.batch)
  issued : s₀.componentsIssued ≤ m.scene.componentsIssued
  newcomers : ∀ id ∈ m.scene.attachQueue, s₀.wasIssued id = false
  stopped : ∃ marks, m.journal = j₀ ++ marks ∧
    ∀ id, m.scene.HasStopped id → s₀.HasStopped id ∨ marks.AsksStop id

namespace Moment.Passes

variable {s₀ : Scene κ} {j₀ : Journal κ} {m m' : Moment κ}

theorem stopped_onward (h : m.Passes s₀ j₀) (ho : Onward m m') (hp : m'.phase.attaches = true) :
    ∃ marks, m'.journal = j₀ ++ marks ∧
      ∀ id, m'.scene.HasStopped id → s₀.HasStopped id ∨ marks.AsksStop id := by
  obtain ⟨marks, hj, hold⟩ := h.stopped
  obtain ⟨more, hmore, -⟩ := Step.journal (.onward ho)
  refine ⟨marks ++ more, by rw [hmore, hj, List.append_assoc], fun id hid => ?_⟩
  rcases (Step.onward ho).stopped (Phase.dropped_of_attaches h.attaches) hid with hid | ⟨ending, hhalts⟩
  · refine (hold id hid).imp_right fun ⟨self, s, r, reply, ending, hmem, hstop⟩ => ?_
    exact ⟨self, s, r, reply, ending, List.mem_append_left _ hmem, hstop⟩
  · cases hhalts with
    | hosted | evicted => cases h.attaches
    | failed => cases hp
    | @asked p self s j r ending t hstop ht =>
      obtain rfl : more = [.asked self s r (r.answer self s).1] := (List.append_cancel_left hmore).symm
      exact .inr ⟨self, s, r, _, ending, List.mem_append_right _ (List.mem_singleton_self _), hstop⟩

theorem newcomers_change {s s' : Scene κ} (hs : s.registry.Consistent) (hc : Scene.Change s s')
    (hi : s₀.componentsIssued ≤ s.componentsIssued)
    (h : ∀ id ∈ s.attachQueue, s₀.wasIssued id = false) :
    ∀ id ∈ s'.attachQueue, s₀.wasIssued id = false := by
  intro id hid
  rcases hc.queues hs id hid with hold | ⟨-, hnew⟩
  · exact h id hold
  · refine Bool.eq_false_iff.mpr fun hissued => Bool.eq_false_iff.mp hnew ?_
    obtain ⟨hpos, hle⟩ := Scene.wasIssued_iff.mp hissued
    exact Scene.wasIssued_iff.mpr ⟨hpos, Nat.le_trans hle hi⟩

theorem onward (h : m.Passes s₀ j₀) (hm : m.Sound) (ho : Onward m m')
    (hp : m'.phase.attaches = true) : m'.Passes s₀ j₀ := by
  have hstopped := h.stopped_onward ho hp
  have hissued := Nat.le_trans h.issued (Step.onward ho).issued
  obtain ⟨done, hdone⟩ := h.batch
  cases ho with
  | hosted => cases hp
  | move hmove =>
    refine ⟨hp, ?_, hissued, h.newcomers, hstopped⟩
    cases hmove with
    | @passOver id batch | @overtakenInit id batch | @overtakenAttach id batch =>
      exact ⟨done ++ [id], by rw [hdone, List.append_assoc]; rfl⟩
    | _ => cases hp
  | act ha =>
    cases ha with
    | start | initialized => exact ⟨hp, ⟨done, hdone⟩, hissued, h.newcomers, hstopped⟩
    | @run id batch =>
      exact ⟨hp, ⟨done ++ [id], by rw [hdone, List.append_assoc]; rfl⟩, hissued, h.newcomers, hstopped⟩
    | begin => cases h.attaches
    | _ => cases hp
  | call => exact ⟨hp, ⟨done, hdone⟩, hissued, h.newcomers, hstopped⟩
  | @ask p self s j r =>
    exact ⟨hp, ⟨done, hdone⟩, hissued,
      newcomers_change hm.scene.registered (s.change_answer self r) h.issued h.newcomers, hstopped⟩
  | @back p self s j component =>
    refine ⟨hp, ⟨done, ?_⟩, hissued, h.newcomers, hstopped⟩
    rw [Phase.starting_next, Phase.batch_next]
    exact hdone

end Moment.Passes

structure Pass (b : Behaviour κ ω) (σ : Setting κ (ω × Journal κ)) (g : Station κ ω) : Prop where
  strides : Relation.ReflTransGen (Stride b) ⟨.idle, σ⟩ g
  passes : g.moment.Passes σ.scene σ.world.2

section Pass

variable {b : Behaviour κ ω} {σ σ' : Setting κ (ω × Journal κ)} {g g' : Station κ ω}

theorem Pass.plays {callback : Callback} {self : Caller} {component : κ}
    {outcome : Except Crash (Except Failure Unit × κ)} {τ : Setting κ (ω × Journal κ)} (h : Pass b σ g)
    (hm : g.moment.Sound) (hp : g.Plays b callback self component outcome τ) :
    (⟨g.phase, some self, τ.scene, τ.world.2⟩ : Moment κ).Sound ∧
      (⟨g.phase, some self, τ.scene, τ.world.2⟩ : Moment κ).Passes σ.scene σ.world.2 :=
  hp.keeps (P := fun m => m.Sound ∧ m.Passes σ.scene σ.world.2)
    (fun _ _ hm ho hphase _ => ⟨hm.1.onward ho, hm.2.onward hm.1 ho (hphase ▸ h.passes.attaches)⟩)
    ⟨hm, h.passes⟩

theorem Pass.stride (h : Pass b σ g) (hm : g.moment.Sound) (hs : Stride b g g')
    (hp : g'.phase.attaches = true) : Pass b σ g' := by
  refine ⟨h.strides.tail hs, ?_⟩
  cases hs with
  | move hmove => exact h.passes.onward hm (.move hmove) hp
  | act ha => exact h.passes.onward hm (.act ha) hp
  | called hplays =>
    obtain ⟨hsound, hpasses⟩ := h.plays hm hplays
    exact hpasses.onward hsound (.back _) hp

theorem closed_pass (hm : (⟨.idle, none, σ.scene, σ.world.2⟩ : Moment κ).Sound) :
    Turn.Closed b (fun p => p.attaches = true) (Pass b σ) := by
  have hsound : ∀ g, Pass b σ g → g.moment.Sound := fun g h =>
    hm.along (stretch_of_strides h.strides).path
  exact ⟨hsound, fun g g' h hs hp => h.stride (hsound g h) hs hp⟩

theorem Pass.begin (absolute : Seconds) :
    Pass b σ ⟨.attaching σ.scene.attachQueue, { σ with scene :=
      { σ.scene with frame := σ.scene.frame + 1, absolute, attachQueue := [] } }⟩ := by
  have hbegin : Act σ.scene .idle (.attaching σ.scene.attachQueue)
      { σ.scene with frame := σ.scene.frame + 1, absolute, attachQueue := [] } [] := .begin
  have hstride : Stride b ⟨.idle, σ⟩ _ := .act hbegin
  rw [List.append_nil] at hstride
  refine ⟨.single hstride, rfl, ⟨[], rfl⟩, Nat.le_refl _, fun _ h => absurd h List.not_mem_nil, [], ?_, ?_⟩
  · exact (List.append_nil _).symm
  · exact fun id hid => .inl hid

theorem ends_attachPass (hm : (⟨.idle, none, σ.scene, σ.world.2⟩ : Moment κ).Sound)
    (absolute : Seconds) :
    Turn.Ends (fun _ σ' => Pass b σ ⟨.attaching [], σ'⟩) (Turn.Breaks b (Pass b σ))
      ((Scene.attachPass b.recorded absolute).outcome σ) :=
  (closed_pass hm).triple_attachEach (fun _ hp => hp) σ.scene.attachQueue _ (Pass.begin absolute)

/-- The component has been initialized, or was stopped first. -/
def Setting.Welcomed (σ : Setting κ (ω × Journal κ)) (id : ComponentId) : Prop :=
  id ∈ σ.world.2.inits ∨ σ.scene.isDone id = true

theorem Path.welcomed {p p' : Phase κ} {calling calling' : Option Caller} {id : ComponentId}
    (h : Path ⟨p, calling, σ.scene, σ.world.2⟩ ⟨p', calling', σ'.scene, σ'.world.2⟩)
    (hm : (⟨p, calling, σ.scene, σ.world.2⟩ : Moment κ).Sound) (hi : σ.scene.wasIssued id = true)
    (hw : σ.Welcomed id) : σ'.Welcomed id := by
  rcases hw with hinit | hdone
  · exact .inl ((h.journal.filterMap _).subset hinit)
  · exact .inr ((h.forward hm).isDone hi hdone)

theorem Pass.welcomed (h : Pass b σ ⟨.attaching [], σ'⟩)
    (hσ : Path ⟨.idle, none, {}, []⟩ ⟨.idle, none, σ.scene, σ.world.2⟩) {id : ComponentId}
    (hi : σ.scene.wasIssued id = true) : σ'.Welcomed id := by
  obtain ⟨past, hcourse⟩ := Course.of_path (hσ.trans (stretch_of_strides h.strides).path)
  rcases hcourse.through rfl id with hw | ⟨hqueue, -⟩
  · exact hw
  · cases hi.symm.trans (h.passes.newcomers id hqueue)

/-- The attach pass that begins in `σ` ends in `σ'`, with the failure `f` of a callback of this component. The
callback is called at the station `g`, and the rest of the batch has not had its turn. -/
structure Foiled (b : Behaviour κ ω) (σ σ' : Setting κ (ω × Journal κ)) (f : Failure) (g : Station κ ω)
    (id : ComponentId) (rest : List ComponentId) : Prop where
  strides : Relation.ReflTransGen (Stride b) ⟨.idle, σ⟩ g
  falls : Falls b f g ⟨.idle, σ'⟩
  phase : g.phase = .initializing id rest ∨ g.phase = .joining id rest
  /-- The rest of the batch goes first in the next pass, and then whoever was added meanwhile. -/
  queue : ∃ done newcomers, σ.scene.attachQueue = done ++ id :: rest ∧
    σ'.scene.attachQueue = rest ++ newcomers ∧ ∀ x ∈ newcomers, σ.scene.wasIssued x = false
  others : ∀ x, σ.scene.wasIssued x = true →
    σ'.Welcomed x ∨ x ∈ rest ∧ σ'.scene.lifecycle? x = some .new
  given_up : σ'.scene.isDone id = true
  /-- Nobody else has stopped in this pass but by a request of a callback. -/
  stopped : ∃ marks, σ'.world.2 = σ.world.2 ++ marks ∧
    ∀ x, σ'.scene.HasStopped x → x = id ∨ σ.scene.HasStopped x ∨ marks.AsksStop x

theorem Phase.isDone_recover {p : Phase κ} {s : Scene κ} {x id : ComponentId} {component : κ} {t : Slot κ}
    (hp : p.attached? = some id) (ht : s.slot? id = some t) :
    (p.recover (s.putBack x component)).isDone id = true := by
  obtain ⟨t', ht', hadv⟩ := (p.advances_fail s x component).slot id t ht
  rw [Scene.isDone_of_slot ht']
  cases hd : t.state.isDone with
  | true => exact hadv.state.isDone hd
  | false =>
    rw [Phase.state_of_recover ht hd ht', if_pos hp]
    rfl

omit [Named κ] in
theorem Phase.cases_starting {p : Phase κ} {callback : Callback} {x id : ComponentId}
    (hc : p.callee = some (callback, x)) (hid : p.starting = some id) :
    (p = .initializing id p.batch ∨ p = .joining id p.batch) ∧ p.attached? = some id ∧ x = id ∧
      p.losses = [] := by
  cases p with
  | initializing y batch =>
    cases hid
    cases hc
    exact ⟨.inl rfl, rfl, rfl, rfl⟩
  | joining y batch =>
    cases hid
    cases hc
    exact ⟨.inr rfl, rfl, rfl, rfl⟩
  | initialized | joined => cases hc
  | _ => cases hid

theorem Pass.foiled {f : Failure} {id : ComponentId} (h : Pass b σ g) (hid : g.phase.starting = some id)
    (hf : Falls b f g ⟨.idle, σ'⟩)
    (hσ : Path ⟨.idle, none, {}, []⟩ ⟨.idle, none, σ.scene, σ.world.2⟩) :
    Foiled b σ σ' f g id g.phase.batch := by
  have hstrides := (stretch_of_strides h.strides).path
  have hstation : g.moment.Sound := Moment.Sound.empty.along (hσ.trans hstrides)
  obtain ⟨past, hcourse⟩ := Course.of_path ((hσ.trans hstrides).trans hf.path)
  have hfalls := hf
  cases hf with
  | @failed callback self component component' τ hplays =>
    obtain ⟨hm, hp⟩ := h.plays hstation hplays
    obtain ⟨hphase, hattached, hself, hlosses⟩ := Phase.cases_starting hplays.due hid
    have hqueue : (g.phase.recover (τ.scene.putBack self.component component')).attachQueue =
        g.phase.batch ++ τ.scene.attachQueue := Phase.attachQueue_recover hplays.due _
    refine ⟨h.strides, hfalls, hphase, ?_, fun x hx => ?_, ?_, ?_⟩
    · obtain ⟨done, hdone⟩ := hp.batch
      refine ⟨done, _, ?_, hqueue, hp.newcomers⟩
      rw [hdone, hid]
      rfl
    · refine (hcourse.through rfl x).imp_right fun ⟨hmem, hnew⟩ => ⟨?_, hnew⟩
      change x ∈ (g.phase.recover _).attachQueue at hmem
      rw [hqueue] at hmem
      refine (List.mem_append.mp hmem).resolve_right fun hlate => ?_
      cases hx.symm.trans (hp.newcomers x hlate)
    · obtain ⟨t, ht⟩ := hm.ready.callee hplays.due
      exact Phase.isDone_recover hattached (hself ▸ ht)
    · obtain ⟨marks, hj, hold⟩ := hp.stopped
      refine ⟨marks, ?_, fun x hx => ?_⟩
      · change τ.world.2 ++ g.phase.losses = _
        rw [hlosses, List.append_nil]
        exact hj
      · have hstep : Step ⟨g.phase, some self, τ.scene, τ.world.2⟩ _ := .fail component'
        rcases hstep.stopped (Phase.dropped_of_attaches hp.attaches) hx with hbefore | ⟨ending, hhalts⟩
        · exact .inr (hold x hbefore)
        · exact .inl (Option.some.inj ((hhalts.attached rfl rfl).symm.trans hattached))

end Pass

theorem path_remainder {b : Behaviour κ ω} {σ : Setting κ (ω × Journal κ)}
    (hm : (⟨.dispatching false, none, σ.scene, σ.world.2⟩ : Moment κ).Sound) (fuel : Nat)
    (delta absolute : Seconds) :
    let σ' := ((Scene.remainder b fuel delta absolute).outcome σ).2
    ∃ p calling, Path ⟨.dispatching false, none, σ.scene, σ.world.2⟩
      ⟨p, calling, σ'.scene, σ'.world.2⟩ := by
  intro σ'
  have hg : (⟨.dispatching false, σ⟩ : Station κ ω).moment.Sound := hm
  have hsplit : Scene.remainder b fuel delta absolute =
      (do
        Scene.deliverRecorded b fuel
        Scene.updateEach b.recorded delta absolute (← Turn.scene).running
        Scene.deliverRecorded b fuel) >>= fun _ => Scene.retireRecorded b := by
    simp only [Scene.remainder, bind_assoc]
  have htriple : Turn.Triple (Turn.Arrives b ⟨.dispatching false, σ⟩ (.dispatching false))
      (Scene.remainder b fuel delta absolute)
      (fun _ σ' => Turn.Arrives b ⟨.dispatching false, σ⟩ .settling σ' ∧ σ'.scene.removalQueue = [] ∧
        σ'.scene.stopping = [])
      (Turn.Quits b ⟨.dispatching false, σ⟩) := by
    rw [hsplit]
    refine Turn.triple_bind (Turn.triple_attached hg fuel delta absolute) fun _ => ?_
    exact Turn.triple_scene fun s => (Turn.triple_retireRounds hg _).weaken fun _ h => h.1
  have hends := htriple σ .refl
  change ∃ p calling, Path _ ⟨p, calling, σ'.scene, σ'.world.2⟩
  cases ho : (Scene.remainder b fuel delta absolute).outcome σ with
  | mk answer τ =>
    obtain rfl : σ' = τ := congrArg Prod.snd ho
    rw [ho] at hends
    cases answer with
    | ok u => exact ⟨.settling, none, hends.1.stretch.path⟩
    | error halt =>
      cases halt with
      | failure f =>
        obtain ⟨g, hstrides, hfalls⟩ := hends
        exact ⟨.idle, none, (stretch_of_strides hstrides).path.trans hfalls.path⟩
      | crash c =>
        obtain ⟨g, hstrides, hcut⟩ := hends
        obtain ⟨calling, hstretch, -⟩ := hcut.stretch
        exact ⟨g.phase, calling, (stretch_of_strides hstrides).path.trans hstretch.path⟩

theorem attachPass_ends {b : Behaviour κ ω} {σ : Setting κ (ω × Journal κ)}
    (hσ : Path ⟨.idle, none, {}, []⟩ ⟨.idle, none, σ.scene, σ.world.2⟩) (fuel : Nat)
    (delta absolute : Seconds) :
    let pass := (Scene.attachPass b.recorded absolute).outcome σ
    let update := (Scene.updateRecorded b fuel delta absolute).outcome σ
    (pass.1 = .ok () → ∀ id, σ.scene.wasIssued id = true →
      pass.2.Welcomed id ∧ update.2.Welcomed id) ∧
    ∀ f, pass.1 = .error (.failure f) →
      update = pass ∧ ∃ g id rest, Foiled b σ pass.2 f g id rest := by
  intro pass update
  have hsound : (⟨.idle, none, σ.scene, σ.world.2⟩ : Moment κ).Sound := Moment.Sound.empty.along hσ
  have hends : Turn.Ends _ _ pass := ends_attachPass hsound absolute
  have hupdate : update = (Scene.attachPass b.recorded absolute >>= fun _ =>
      Scene.remainder b fuel delta absolute).outcome σ :=
    congrArg (Turn.outcome · σ) (Scene.updateRecorded_eq_attachPass b fuel delta absolute)
  rw [Turn.outcome_bind] at hupdate
  cases hpass : pass with
  | mk answer σ' =>
    rw [show (Scene.attachPass b.recorded absolute).outcome σ = _ from hpass] at hupdate
    rw [hpass] at hends
    refine ⟨fun hok id hi => ?_, fun f hfails => ?_⟩
    · cases hok
      have hthrough : Pass b σ ⟨.attaching [], σ'⟩ := hends
      have hstrides : Relation.ReflTransGen (Stride b) ⟨.idle, σ⟩ ⟨.dispatching false, σ'⟩ :=
        hthrough.strides.tail (.move .attached)
      have hlater := (stretch_of_strides hstrides).path
      have hwelcomed := hthrough.welcomed hσ hi
      have hissued : σ'.scene.wasIssued id = true :=
        Scene.wasIssued_iff.mpr ((Scene.wasIssued_iff.mp hi).imp_right fun hle =>
          Nat.le_trans hle hthrough.passes.issued)
      obtain ⟨p, calling, hrest⟩ := path_remainder (b := b) (hsound.along hlater) fuel delta absolute
      rw [hupdate]
      exact ⟨hwelcomed, hrest.welcomed (hsound.along hlater) hissued hwelcomed⟩
    · cases hfails
      obtain ⟨g, id, hbroken, hid, hfalls⟩ := hends
      exact ⟨hupdate, g, id, _, hbroken.foiled hid hfalls hσ⟩

/-- `init` is called in the order of the ids, and so once for each component; the calls of `attach` follow
it, with some left out. Before a component's `attach` its own `init` has returned well, and nobody has
stopped the component by then. When an attach pass ends well, everybody who was issued before has been
initialized or was stopped first, whatever becomes of the rest of the update. When a callback fails, the
update ends with this failure: its component is given up, nobody else is stopped but by a request, and
whoever has not had a turn goes first in the next pass. -/
theorem attachment_history (b : Behaviour κ ω) (w : ω) (ops : List (HostOp κ ω)) :
    let σ := (recording b w ops).2
    let j := σ.world.2
    ((recording b w ops).1, σ.erase) = ending b w ops ∧
    (j.inits.Pairwise fun x y => x.val < y.val) ∧
    j.joins.Sublist j.inits ∧
    (∃ past last, Trodden b w ops past last) ∧
    (∀ past last, Trodden b w ops past last → ∀ before self s after,
      j = before ++ .called .attach self s :: after →
        s.lifecycle? self.component = some .initialized ∧ Opened b past self.component before) ∧
    ((ending b w ops).1 = .ok () → ∀ fuel delta absolute,
      let pass := (Scene.attachPass b.recorded absolute).outcome σ
      let update := (Scene.updateRecorded b fuel delta absolute).outcome σ
      (update.1, update.2.erase) = (Scene.update b fuel delta absolute).outcome σ.erase ∧
      (pass.1 = .ok () → ∀ id, σ.scene.wasIssued id = true →
        pass.2.Welcomed id ∧ update.2.Welcomed id) ∧
      ∀ f, pass.1 = .error (.failure f) →
        update = pass ∧ ∃ g id rest, Foiled b σ pass.2 f g id rest) := by
  intro σ j
  obtain ⟨moments, final, hpassed⟩ := exists_passed b w ops
  have hjournal : final.journal = j := hpassed.journal
  have hsorted : j.inits.Pairwise fun x y => x.val < y.val := hjournal ▸ hpassed.course.inLine.inits
  have hordered : j.Ordered := hjournal ▸ hpassed.course.timed.ordered
  have hjoins : j.joins.Sublist j.inits := hjournal ▸ hpassed.course.inTurn.sublist
  refine ⟨erase_recording b w ops, hsorted, hjoins, exists_trodden b w ops,
    fun past last htrodden before self s after heq => ?_, fun hok fuel delta absolute => ?_⟩
  · have hmem : .called .attach self s ∈ j := by
      rw [heq]
      exact List.mem_append_right _ List.mem_cons_self
    obtain ⟨a, ha, rfl⟩ := hordered.timely .attach self s hmem
    exact ⟨ha, htrodden.opened before _ after heq self.component rfl⟩
  · exact ⟨Turn.erases_update b fuel delta absolute σ,
      attachPass_ends (reached_idle hok).2 fuel delta absolute⟩

/-- The first component adds another one when it is initialized, the second fails, and the third stops the
one that was added. -/
def brittle : Behaviour Probe Unit := fun callback self probe =>
  match callback, self.component.val with
  | .init, 1 => .ask (.addComponent self.entity {}) fun _ => .done (.ok (), probe)
  | .init, 2 => .done (.error (.other "no"), probe)
  | .init, 3 => .ask (.stop ⟨4⟩ .finished) fun _ => .done (.ok (), probe)
  | _, _ => .done (.ok (), probe)

def arrivals : List (HostOp Probe Unit) :=
  [.call (.addEntity "hall"), .call (.addComponent ⟨1⟩ {}), .call (.addComponent ⟨1⟩ {}),
    .call (.addComponent ⟨1⟩ {})]

/-- The second component is given up in the first update and the third waits, in front of the newcomer. The
second update initializes the third, which stops the newcomer before its turn. -/
theorem attachment_history_brittle :
    let σ := (recording brittle () arrivals).2
    let σ' := (recording brittle () (arrivals ++ [.update 1 0 0])).2
    let pass := (Scene.attachPass brittle.recorded 0).outcome σ
    let again := (Scene.updateRecorded brittle 1 0 0).outcome σ'
    pass.1 = .error (.failure (.other "no")) ∧
    (∃ g id rest, Foiled brittle σ pass.2 (.other "no") g id rest) ∧
    pass.2.scene.attachQueue = [⟨3⟩, ⟨4⟩] ∧ σ'.scene.attachQueue = [⟨3⟩, ⟨4⟩] ∧
    (∀ id, σ'.scene.wasIssued id = true → again.2.Welcomed id) ∧
    again.2.world.2.inits = [⟨1⟩, ⟨2⟩, ⟨3⟩] ∧ again.2.world.2.joins = [⟨1⟩, ⟨3⟩] := by
  intro σ σ' pass again
  obtain ⟨-, -, -, -, -, hfirst⟩ := attachment_history brittle () arrivals
  obtain ⟨-, -, -, -, -, hsecond⟩ := attachment_history brittle () (arrivals ++ [.update 1 0 0])
  obtain ⟨-, -, hfoiled⟩ := hfirst (by decide +kernel) 1 0 0
  obtain ⟨-, hwelcomed, -⟩ := hsecond (by decide +kernel) 1 0 0
  have hfails : pass.1 = .error (.failure (.other "no")) := by decide +kernel
  have hsucceeds : ((Scene.attachPass brittle.recorded 0).outcome σ').1 = .ok () := by decide +kernel
  refine ⟨hfails, (hfoiled _ hfails).2, ?_, ?_, fun id hi => (hwelcomed hsucceeds id hi).2, ?_, ?_⟩
  -- The queues and the calls are read off the two runs.
  · decide +kernel
  · decide +kernel
  · decide +kernel
  · decide +kernel

end FrameChain
