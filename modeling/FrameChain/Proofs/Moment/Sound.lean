import FrameChain.Proofs.Scene.Stages

set_option autoImplicit false

namespace FrameChain

variable {κ : Type}

structure Slot.Follows (t t' : Slot κ) : Prop where
  owner : t'.owner = t.owner
  state : t'.state = t.state ∨
    t.state.isDone = false ∧ (t'.state = .finished ∨ t'.state = .detached)

theorem Slot.Follows.isDone {t t' : Slot κ} (h : t.Follows t') (hd : t.state.isDone = true) :
    t'.state.isDone = true := by
  rcases h.state with heq | ⟨hn, _⟩
  · rw [heq]
    exact hd
  · rw [hn] at hd
    cases hd

theorem Slot.Follows.state_ne {t t' : Slot κ} (h : t.Follows t') {state : Lifecycle}
    (hl : state.isDone = false) (hne : t.state ≠ state) : t'.state ≠ state := by
  intro heq
  rcases h.state with hs | ⟨_, hs | hs⟩
  · exact hne (hs.symm.trans heq)
  · rw [← heq, hs] at hl
    cases hl
  · rw [← heq, hs] at hl
    cases hl

namespace Scene

def Follows (s s' : Scene κ) : Prop :=
  ∀ id t, s.slot? id = some t → ∃ t', s'.slot? id = some t' ∧ t.Follows t'

theorem Later.follows {s s' : Scene κ} (h : Later s s') : Follows s s' := by
  intro id t ht
  obtain ⟨t', ht', hev⟩ := h.slot id t ht
  exact ⟨t', ht', hev.owner, hev.state⟩

theorem follows_modifySlot (s : Scene κ) (id : ComponentId) (f : Slot κ → Slot κ)
    (hid : ∀ t, (f t).id = t.id) (howner : ∀ t, (f t).owner = t.owner)
    (hstate : ∀ t, (f t).state = t.state) : Follows s (s.modifySlot id f) := by
  intro x t ht
  rw [slot?_modifySlot s id x f hid, ht]
  refine ⟨_, rfl, ?_⟩
  dsimp only
  split
  · exact ⟨howner t, .inl (hstate t)⟩
  · exact ⟨rfl, .inl rfl⟩

structure Stopped (s : Scene κ) (ids : List ComponentId) : Prop where
  nodup : ids.Nodup
  done : ∀ id ∈ ids, ∃ t, s.slot? id = some t ∧ t.state.isDone = true

theorem stopped_stopping {s : Scene κ} (h : s.registry.Consistent) : s.Stopped s.stopping := by
  refine ⟨?_, fun id hid => ?_⟩
  · have hsorted : s.slots.Pairwise fun t u => t.id ≠ u.id :=
      (List.pairwise_map.1 h.slots_sorted).imp fun hlt heq => Nat.ne_of_lt hlt (congrArg _ heq)
    exact List.pairwise_map.2 (hsorted.filter _)
  · obtain ⟨t, ht, rfl⟩ := List.mem_map.1 hid
    obtain ⟨hmem, hdone⟩ := List.mem_filter.1 ht
    exact ⟨t, (slot?_eq_some_iff h).2 ⟨hmem, rfl⟩, hdone⟩

theorem Stopped.follows {s s' : Scene κ} {ids : List ComponentId} (h : s.Stopped ids)
    (hs : Follows s s') : s'.Stopped ids := by
  refine ⟨h.nodup, fun id hid => ?_⟩
  obtain ⟨t, ht, hd⟩ := h.done id hid
  obtain ⟨t', ht', hf⟩ := hs id t ht
  exact ⟨t', ht', hf.isDone hd⟩

theorem slot?_dropSlot (s : Scene κ) (slot : Slot κ) {id : ComponentId} (hne : id ≠ slot.id) :
    (s.dropSlot slot).slot? id = s.slot? id := by
  unfold slot? dropSlot
  rw [List.find?_filter]
  congr 1
  funext t
  by_cases heq : t.id = id
  · simp [heq, hne]
  · simp [heq]

theorem Stopped.drop {s : Scene κ} {slot : Slot κ} {rest : List ComponentId}
    (h : s.Stopped (slot.id :: rest)) : (s.dropSlot slot).Stopped rest := by
  obtain ⟨hn, hnodup⟩ := List.nodup_cons.1 h.nodup
  refine ⟨hnodup, fun id hid => ?_⟩
  rw [slot?_dropSlot s slot fun heq => hn (heq ▸ hid)]
  exact h.done id (List.mem_cons_of_mem _ hid)

end Scene

namespace Phase

def starting : Phase κ → Option ComponentId
  | initializing id _ | initialized id _ | joining id _ | joined id _ => some id
  | _ => none

def batch : Phase κ → List ComponentId
  | attaching batch | initializing _ batch | initialized _ batch | joining _ batch | joined _ batch =>
      batch
  | _ => []

/-- What the phase counts on. A callback may stop its component, but cannot move it on. -/
def Ready (s : Scene κ) : Phase κ → Prop
  | initializing id _ | initialized id _ => ∃ t, s.slot? id = some t ∧ t.state ≠ .initialized
  | joining id _ | joined id _ => ∃ t, s.slot? id = some t ∧ t.state ≠ .new
  | reaching _ _ recipient _ => ∃ t, s.slot? recipient.component = some t
  | ticking _ _ id _ => ∃ t, s.slot? id = some t
  | retiring _ rest => s.Stopped rest
  | ending slot _ rest | removing slot _ rest | dropping slot _ rest =>
      s.Stopped (slot.id :: rest) ∧ ∃ t, s.slot? slot.id = some t ∧ t.owner = slot.owner
  | _ => True

theorem starting_next (p : Phase κ) : p.next.starting = p.starting := by
  cases p <;> rfl

theorem batch_next (p : Phase κ) : p.next.batch = p.batch := by
  cases p <;> rfl

theorem Ready.next {s : Scene κ} {p : Phase κ} (h : p.Ready s) : p.next.Ready s := by
  cases p with
  | reaching late m recipient rest => trivial
  | ticking delta absolute id rest => trivial
  | _ => exact h

theorem Ready.callee {s : Scene κ} {p : Phase κ} (h : p.Ready s) {c : Callback} {id : ComponentId}
    (hc : p.callee = some (c, id)) : ∃ t, s.slot? id = some t := by
  cases p with
  | initializing x batch =>
    cases hc
    exact ⟨h.choose, h.choose_spec.1⟩
  | joining x batch =>
    cases hc
    exact ⟨h.choose, h.choose_spec.1⟩
  | reaching late m recipient rest =>
    cases hc
    exact h
  | ticking delta absolute x rest =>
    cases hc
    exact h
  | ending slot doomed rest =>
    cases hc
    exact ⟨h.2.choose, h.2.choose_spec.1⟩
  | removing slot doomed rest =>
    cases hc
    exact ⟨h.2.choose, h.2.choose_spec.1⟩
  | _ => cases hc

theorem Ready.follows {s s' : Scene κ} {p : Phase κ} (h : p.Ready s) (hs : s.Follows s') :
    p.Ready s' := by
  cases p with
  | initializing id batch =>
    obtain ⟨t, ht, hne⟩ := h
    obtain ⟨t', ht', hf⟩ := hs id t ht
    exact ⟨t', ht', hf.state_ne rfl hne⟩
  | initialized id batch =>
    obtain ⟨t, ht, hne⟩ := h
    obtain ⟨t', ht', hf⟩ := hs id t ht
    exact ⟨t', ht', hf.state_ne rfl hne⟩
  | joining id batch =>
    obtain ⟨t, ht, hne⟩ := h
    obtain ⟨t', ht', hf⟩ := hs id t ht
    exact ⟨t', ht', hf.state_ne rfl hne⟩
  | joined id batch =>
    obtain ⟨t, ht, hne⟩ := h
    obtain ⟨t', ht', hf⟩ := hs id t ht
    exact ⟨t', ht', hf.state_ne rfl hne⟩
  | reaching late m recipient rest =>
    obtain ⟨t, ht⟩ := h
    obtain ⟨t', ht', _⟩ := hs _ t ht
    exact ⟨t', ht'⟩
  | ticking delta absolute id rest =>
    obtain ⟨t, ht⟩ := h
    obtain ⟨t', ht', _⟩ := hs _ t ht
    exact ⟨t', ht'⟩
  | retiring doomed rest => exact Scene.Stopped.follows h hs
  | ending slot doomed rest | removing slot doomed rest | dropping slot doomed rest =>
    obtain ⟨hstopped, t, ht, howner⟩ := h
    obtain ⟨t', ht', hf⟩ := hs _ t ht
    exact ⟨hstopped.follows hs, t', ht', hf.owner.trans howner⟩
  | _ => trivial

end Phase

structure Moment.Sound (m : Moment κ) : Prop where
  scene : m.scene.Sound (m.calling.map (·.component)) m.phase.starting m.phase.batch
  ready : m.phase.Ready m.scene
  due : ∀ self, m.calling = some self → ∃ c, m.phase.callee = some (c, self.component)
  seat : ∀ self, m.calling = some self →
    ∃ t, m.scene.slot? self.component = some t ∧ t.owner = self.entity

namespace Moment.Sound

theorem empty : (⟨.idle, none, {}, []⟩ : Moment κ).Sound := by
  refine ⟨Scene.wellFormed_empty, trivial, ?_, ?_⟩
  · intro self h
    cases h
  · intro self h
    cases h

theorem move {s : Scene κ} {p p' : Phase κ} (hs : s.Sound none p.starting p.batch)
    (hr : p.Ready s) (h : Move s p p') : s.Sound none p'.starting p'.batch ∧ p'.Ready s := by
  cases h with
  | @passOver id batch h =>
    refine ⟨hs.passOver fun t ht heq => h ?_, trivial⟩
    simp only [Scene.lifecycle?, ht, heq]
  | @overtakenInit id batch h =>
    obtain ⟨u, hu, hne⟩ := hr
    refine ⟨Scene.Sound.settle hs fun t ht => ⟨h t ht, ?_⟩, trivial⟩
    rw [hu] at ht
    cases ht
    exact hne
  | @overtakenAttach id batch h =>
    obtain ⟨u, hu, hne⟩ := hr
    refine ⟨Scene.Sound.settle hs fun t ht => ⟨?_, h t ht⟩, trivial⟩
    rw [hu] at ht
    cases ht
    exact hne
  | @tick delta absolute id rest h =>
    refine ⟨hs, ?_⟩
    simp only [Scene.lifecycle?] at h
    split at h
    · exact ⟨_, ‹_›⟩
    · split at h <;> cases h
  | @unseen id slot doomed rest h _ =>
    have hid := Scene.slot?_id h
    subst hid
    exact ⟨hs, hr, slot, h, rfl⟩
  | @endHook id slot doomed rest h _ _ =>
    have hid := Scene.slot?_id h
    subst hid
    exact ⟨hs, hr, slot, h, rfl⟩
  | _ => exact ⟨hs, trivial⟩

theorem act {s s' : Scene κ} {p p' : Phase κ} {marks : Journal κ}
    (hs : s.Sound none p.starting p.batch) (hr : p.Ready s) (h : Act s p p' s' marks) :
    s'.Sound none p'.starting p'.batch ∧ p'.Ready s' := by
  cases h with
  | begin => exact ⟨Scene.Sound.begin hs _ _, trivial⟩
  | @start id batch h =>
    refine ⟨Scene.Sound.startInit hs, ?_⟩
    have hslot : ∃ t, s.slot? id = some t ∧ t.state = .new := by
      simp only [Scene.lifecycle?] at h
      split at h
      · exact ⟨_, ‹_›, Option.some.inj h⟩
      · split at h <;> cases h
    obtain ⟨t, ht, hnew⟩ := hslot
    refine ⟨_, Scene.slot?_modifySlot_self ht _ fun _ => rfl, fun heq => ?_⟩
    cases hnew.symm.trans heq
  | @initialized id batch slot h _ =>
    exact ⟨Scene.Sound.setInitialized hs, _, Scene.slot?_modifySlot_self h _ fun _ => rfl, nofun⟩
  | @run id batch slot h _ =>
    have hrun := Scene.Sound.setRunning hs
    exact ⟨hrun.of_slots hrun.registered rfl rfl rfl hrun.tidy hrun.held, trivial⟩
  | resume h => exact ⟨hs.of_slots hs.registered rfl rfl rfl hs.tidy hs.held, trivial⟩
  | take h hpop => exact ⟨hs.pop hpop, trivial⟩
  | @serve late m recipient rest h =>
    refine ⟨hs, ?_⟩
    simp only [Scene.accepts, Bool.and_eq_true, decide_eq_true_eq] at h
    have hrun := h.1.1
    simp only [Scene.lifecycle?] at hrun
    split at hrun
    · exact ⟨_, ‹_›⟩
    · split at hrun <;> cases hrun
  | pass h => exact ⟨hs, trivial⟩
  | round => exact ⟨hs.detachDoomed, Scene.stopped_stopping hs.detachDoomed.registered⟩
  | @drop slot doomed rest =>
    exact ⟨hs.dropSlot slot, hr.1.drop⟩
  | @clear doomed => exact ⟨hs.clear doomed, trivial⟩

theorem recover {s : Scene κ} {p : Phase κ} {c : Callback} {id : ComponentId}
    (hs : s.Sound none p.starting p.batch) (hc : p.callee = some (c, id)) :
    (p.recover s).WellFormed := by
  cases p with
  | initializing x batch => exact Scene.Sound.abandon hs
  | joining x batch => exact Scene.Sound.abandon hs
  | reaching late m recipient rest =>
    exact Scene.Sound.of_slots hs hs.registered rfl rfl rfl hs.tidy hs.held
  | ticking delta absolute x rest => exact hs
  | ending slot doomed rest => exact hs
  | removing slot doomed rest => exact hs
  | _ => cases hc

section

variable [Named κ]

theorem onward {m m' : Moment κ} (h : m.Sound) (hs : Onward m m') : m'.Sound := by
  cases hs with
  | @hosted s j c => exact ⟨h.scene.change (Scene.change_apply s c), trivial, nofun, nofun⟩
  | @move p p' s j hmove =>
    obtain ⟨hscene, hready⟩ := move h.scene h.ready hmove
    exact ⟨hscene, hready, nofun, nofun⟩
  | @act p p' s s' j marks hact =>
    obtain ⟨hscene, hready⟩ := act h.scene h.ready hact
    exact ⟨hscene, hready, nofun, nofun⟩
  | @call p callback id s j slot hp hslot =>
    have hf : s.Follows (s.takeOut id) :=
      Scene.follows_modifySlot s id _ (fun _ => rfl) (fun _ => rfl) fun _ => rfl
    refine ⟨h.scene.takeOut id, h.ready.follows hf, ?_, ?_⟩
    · intro self heq
      cases heq
      exact ⟨callback, hp⟩
    · intro self heq
      cases heq
      exact ⟨_, Scene.slot?_modifySlot_self hslot _ fun _ => rfl, rfl⟩
  | @ask p self s j r =>
    have hc := Scene.change_answer s self r
    have hf := hc.later.follows
    refine ⟨h.scene.change hc, h.ready.follows hf, h.due, fun caller heq => ?_⟩
    obtain ⟨t, ht, howner⟩ := h.seat caller heq
    obtain ⟨t', ht', hft⟩ := hf _ t ht
    exact ⟨t', ht', hft.owner.trans howner⟩
  | @back p self s j component =>
    have hf : s.Follows (s.putBack self.component component) :=
      Scene.follows_modifySlot s _ _ (fun _ => rfl) (fun _ => rfl) fun _ => rfl
    have hscene := h.scene.putBack component
    refine ⟨?_, (h.ready.follows hf).next, nofun, nofun⟩
    rw [Phase.starting_next, Phase.batch_next]
    exact hscene

theorem step {m m' : Moment κ} (h : m.Sound) (hs : Step m m') : m'.Sound := by
  cases hs with
  | onward hf => exact h.onward hf
  | @fail p self s j component =>
    obtain ⟨c, hc⟩ := h.due self rfl
    exact ⟨recover (h.scene.putBack component) hc, trivial, nofun, nofun⟩

theorem along {m m' : Moment κ} (h : m.Sound) (hp : Path m m') : m'.Sound :=
  hp.keeps (fun _ _ => step) h

end

end Moment.Sound

end FrameChain
