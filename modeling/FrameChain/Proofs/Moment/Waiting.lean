import FrameChain.Proofs.Moment.Timed

set_option autoImplicit false

namespace FrameChain

variable {κ : Type}

namespace Scene

def Queues (s s' : Scene κ) : Prop :=
  ∀ id ∈ s'.attachQueue, id ∈ s.attachQueue ∨ s.slot? id = none ∧ s.wasIssued id = false

theorem Queues.of_eq {s s' : Scene κ} (h : s'.attachQueue = s.attachQueue) : s.Queues s' :=
  fun _ hid => .inl (h ▸ hid)

theorem slot?_unissued {s : Scene κ} (h : s.registry.Consistent) {id : ComponentId}
    (hi : s.wasIssued id = false) : s.slot? id = none := by
  cases ht : s.slot? id with
  | none => rfl
  | some t => cases hi.symm.trans (wasIssued_of_slot h ht)

theorem Change.queues [Named κ] {s s' : Scene κ} (h : Change s s') (hs : s.registry.Consistent) :
    s.Queues s' := by
  cases h with
  | @attached owner e component ho =>
    simp only [addComponent, ho]
    intro id hid
    rcases List.mem_append.1 hid with hid | hid
    · exact .inl hid
    · have hnew : s.wasIssued id = false := by
        rw [List.mem_singleton.1 hid, wasIssued]
        simp
      exact .inr ⟨slot?_unissued hs hnew, hnew⟩
  | _ => exact .of_eq rfl

end Scene

namespace Scene

def desk (s : Scene κ) : List ComponentId × Bus := (s.attachQueue, s.bus)

theorem desk_detachDoomed (s : Scene κ) : s.detachDoomed.desk = s.desk := by
  refine (foldl_frame desk (fun s entity => ?_) _ _).trans rfl
  unfold detachComponents
  cases s.entity? entity with
  | none => rfl
  | some e =>
    refine foldl_frame desk (fun s id => ?_) e.components s
    rfl

theorem desk_clear (s : Scene κ) (doomed : List EntityId) :
    (doomed.foldl removeIfEmpty s).desk = s.desk := by
  refine foldl_frame desk (fun s entity => ?_) doomed s
  unfold removeIfEmpty
  split <;> rfl

end Scene

/-- Only the start of attaching marks a slot as initialized. So nobody who waits to be attached is marked,
and whoever runs or is called is. -/
structure Moment.Marked (m : Moment κ) : Prop where
  waiting : ∀ id ∈ m.phase.batch ++ m.scene.attachQueue, ∀ t, m.scene.slot? id = some t →
    t.initialized = false
  starting : ∀ id, m.phase.starting = some id → ∃ t, m.scene.slot? id = some t ∧ t.initialized = true
  running : ∀ id t, m.scene.slot? id = some t → t.state = .running → t.initialized = true
  caller : ∀ self, m.calling = some self →
    ∃ t, m.scene.slot? self.component = some t ∧ t.initialized = true

namespace Moment.Marked

theorem empty : (⟨.idle, none, {}, []⟩ : Moment κ).Marked :=
  ⟨fun _ h => absurd h List.not_mem_nil, nofun, nofun, nofun⟩

theorem continues {m m' : Moment κ} (h : m.Marked) (hc : m.scene.Continues m'.scene)
    (hq : ∀ id ∈ m'.phase.batch ++ m'.scene.attachQueue,
      id ∈ m.phase.batch ++ m.scene.attachQueue ∨ m.scene.slot? id = none)
    (hstarting : ∀ id, m'.phase.starting = some id →
      ∃ t, m'.scene.slot? id = some t ∧ t.initialized = true)
    (hcaller : ∀ self, m'.calling = some self →
      ∃ t, m'.scene.slot? self.component = some t ∧ t.initialized = true) : m'.Marked := by
  refine ⟨fun id hid t' ht' => ?_, hstarting, fun id t' ht' hrun => ?_, hcaller⟩
  · rcases hc id t' ht' with hfresh | ⟨t, ht, hcont⟩
    · exact hfresh.initialized
    · rcases hq id hid with hid | hnone
      · rw [hcont.initialized]
        exact h.waiting id hid t ht
      · cases hnone.symm.trans ht
  · rcases hc id t' ht' with hfresh | ⟨t, ht, hcont⟩
    · cases hfresh.state.symm.trans hrun
    · rw [hcont.initialized]
      exact h.running id t ht (hcont.running hrun)

theorem advances {m m' : Moment κ} (h : m.Marked) (hc : m.scene.Continues m'.scene)
    (ha : m.scene.Advances m'.scene)
    (hq : ∀ id ∈ m'.phase.batch ++ m'.scene.attachQueue,
      id ∈ m.phase.batch ++ m.scene.attachQueue ∨ m.scene.slot? id = none)
    (hstarting : ∀ id, m'.phase.starting = some id → m.phase.starting = some id)
    (hcaller : ∀ self, m'.calling = some self → m.calling = some self) : m'.Marked := by
  have hkept : ∀ id, (∃ t, m.scene.slot? id = some t ∧ t.initialized = true) →
      ∃ t, m'.scene.slot? id = some t ∧ t.initialized = true := by
    intro id ⟨t, ht, hi⟩
    obtain ⟨t', ht', hadv⟩ := ha.slot id t ht
    exact ⟨t', ht', hadv.initialized hi⟩
  exact h.continues hc hq (fun id hid => hkept id (h.starting id (hstarting id hid)))
    fun self hself => hkept _ (h.caller self (hcaller self hself))

theorem move {s : Scene κ} {p p' : Phase κ} {j : Journal κ}
    (h : (⟨p, none, s, j⟩ : Moment κ).Marked) (hm : Move s p p') :
    (⟨p', none, s, j⟩ : Moment κ).Marked := by
  have hadv : s.Advances s := .of_slots rfl rfl
  refine h.advances (.of_slots rfl) hadv (fun id hid => .inl ?_) (fun id hid => ?_) nofun
  · cases hm
    case passOver =>
      rcases List.mem_append.1 hid with hid | hid
      · exact List.mem_append_left _ (List.mem_cons_of_mem _ hid)
      · exact List.mem_append_right _ hid
    all_goals exact hid
  · cases hm <;> cases hid

theorem setState {s : Scene κ} {p : Phase κ} {j : Journal κ} {id : ComponentId}
    (h : (⟨p, none, s, j⟩ : Moment κ).Marked) (p' : Phase κ) (hp : p.starting = some id)
    (hbatch : p'.batch = p.batch) (hp' : ∀ x, p'.starting = some x → x = id) (state : Lifecycle) :
    (⟨p', none, s.setState id state, j⟩ : Moment κ).Marked := by
  have hmark : ∀ x t', (s.setState id state).slot? x = some t' →
      ∃ t, s.slot? x = some t ∧ t'.initialized = t.initialized ∧ (x ≠ id → t' = t) := by
    intro x t' ht'
    rw [Scene.slot?_setState] at ht'
    obtain ⟨t, ht, rfl⟩ := Option.map_eq_some_iff.1 ht'
    refine ⟨t, ht, by split <;> rfl, fun hne => if_neg ?_⟩
    rw [Scene.slot?_id ht]
    simpa using hne
  obtain ⟨u, hu, hi⟩ := h.starting id hp
  refine ⟨fun x hx t' ht' => ?_, fun x hx => ?_, fun x t' ht' hrun => ?_, nofun⟩
  · obtain ⟨t, ht, hsame, _⟩ := hmark x t' ht'
    rw [hsame]
    exact h.waiting x (hbatch ▸ hx) t ht
  · rw [hp' x hx]
    exact ⟨_, Scene.slot?_modifySlot_self hu _ fun _ => rfl, hi⟩
  · obtain ⟨t, ht, hsame, heq⟩ := hmark x t' ht'
    by_cases hx : x = id
    · subst hx
      cases hu.symm.trans ht
      exact hsame.trans hi
    · rw [heq hx] at hrun ⊢
      exact h.running x t ht hrun

theorem start {s : Scene κ} {id : ComponentId} {batch : List ComponentId} {j : Journal κ}
    (h : (⟨.attaching (id :: batch), none, s, j⟩ : Moment κ).Marked)
    (hs : s.Sound none none (id :: batch)) (hnew : s.lifecycle? id = some .new) :
    (⟨.initializing id batch, none, s.modifySlot id fun slot => { slot with initialized := true },
      j⟩ : Moment κ).Marked := by
  let mark : Slot κ → Slot κ := fun slot => { slot with initialized := true }
  have hsame : ∀ x t', x ≠ id → (s.modifySlot id mark).slot? x = some t' → s.slot? x = some t' :=
    fun x t' hx ht' => (Scene.slot?_of_marked ht').resolve_left hx
  have hself : ∃ t, s.slot? id = some t := by
    rcases Scene.lifecycle?_cases hnew with ⟨t, ht, _⟩ | ⟨_, _, hremoved⟩
    · exact ⟨t, ht⟩
    · cases hremoved
  obtain ⟨u, hu⟩ := hself
  have hout : (s.modifySlot id mark).slot? id = some (mark u) :=
    Scene.slot?_modifySlot_self hu _ fun _ => rfl
  refine ⟨fun x hx t' ht' => ?_, fun x hx => ?_, fun x t' ht' hrun => ?_, nofun⟩
  · -- Ids in the queue are sorted, so the one that is taken off comes only once.
    have hne : x ≠ id := by
      rintro rfl
      exact Nat.lt_irrefl _ ((List.pairwise_cons.1 hs.queue_sorted).1 x hx)
    exact h.waiting x (List.mem_cons_of_mem _ hx) t' (hsame x t' hne ht')
  · cases hx
    exact ⟨_, hout, rfl⟩
  · by_cases hx : x = id
    · subst hx
      cases hout.symm.trans ht'
      rfl
    · exact h.running x t' (hsame x t' hx ht') hrun

theorem act {s s' : Scene κ} {p p' : Phase κ} {j marks : Journal κ}
    (h : (⟨p, none, s, j⟩ : Moment κ).Marked) (hs : s.Sound none p.starting p.batch)
    (ha : Act s p p' s' marks) : (⟨p', none, s', j ++ marks⟩ : Moment κ).Marked := by
  cases ha with
  | begin =>
    refine h.continues (.of_slots rfl) (fun id hid => .inl ?_) nofun nofun
    rw [List.append_nil] at hid
    exact hid
  | start hnew => exact (List.append_nil j).symm ▸ h.start hs hnew
  | @initialized id batch slot _ _ =>
    have hm := h.setState (.joining id batch) rfl rfl (fun x hx => (Option.some.inj hx).symm)
      .initialized
    exact ⟨hm.waiting, hm.starting, hm.running, nofun⟩
  | @run id batch slot _ _ =>
    have hm := h.setState (.attaching batch) rfl rfl nofun .running
    exact ⟨hm.waiting, nofun, hm.running, nofun⟩
  | round =>
    have hqueue : s.detachDoomed.attachQueue = s.attachQueue := congrArg Prod.fst s.desk_detachDoomed
    exact h.continues .detachDoomed (fun id hid => .inl (hqueue ▸ hid)) nofun nofun
  | drop => exact h.continues (.dropSlot _) (fun id hid => .inl hid) nofun nofun
  | @clear doomed =>
    have hqueue : (doomed.foldl Scene.removeIfEmpty s).attachQueue = s.attachQueue :=
      congrArg Prod.fst (s.desk_clear doomed)
    exact h.continues (.clear _) (fun id hid => .inl (hqueue ▸ hid)) nofun nofun
  | _ => exact h.continues (.of_slots rfl) (fun id hid => .inl hid) nofun nofun

theorem callee {m : Moment κ} (h : m.Marked) (ht : m.Timed) (hc : m.calling = none)
    {callback : Callback} {id : ComponentId} (hp : m.phase.callee = some (callback, id)) :
    ∃ t, m.scene.slot? id = some t ∧ t.initialized = true := by
  obtain ⟨t, hslot, htimely, hfarewell⟩ := ht.due hc callback id hp
  obtain ⟨phase, calling, s, j⟩ := m
  cases phase with
  | initializing x batch | joining x batch =>
    cases hp
    exact h.starting id rfl
  | reaching late m recipient rest =>
    cases hp
    exact ⟨t, hslot, h.running _ t hslot htimely⟩
  | ticking delta absolute x rest =>
    cases hp
    exact ⟨t, hslot, h.running _ t hslot htimely⟩
  | ending slot doomed rest =>
    cases hp
    refine ⟨t, hslot, hfarewell ?_⟩
    split <;> rfl
  | removing slot doomed rest =>
    cases hp
    exact ⟨t, hslot, hfarewell rfl⟩
  | _ => cases hp

variable [Named κ]

theorem step {m m' : Moment κ} (h : m.Marked) (hm : m.Sound) (ht : m.Timed) (hs : Step m m') :
    m'.Marked := by
  cases hs with
  | onward ho =>
    cases ho with
    | @hosted s j c =>
      have hc := Scene.change_apply s c
      exact h.advances (.change hc) hc.advances
        (fun id hid => (hc.queues hm.scene.registered id hid).imp_right And.left) nofun nofun
    | move hmove => exact h.move hmove
    | act ha => exact h.act hm.scene ha
    | @call p callback id s j slot hp hslot =>
      obtain ⟨t, ht', hi⟩ := h.callee ht rfl hp
      refine h.continues (.takeOut id) (fun x hx => .inl hx) (fun x hx => ?_) fun self hself => ?_
      · obtain ⟨u, hu, hmark⟩ := h.starting x hx
        obtain ⟨u', hu', hadv⟩ := (s.advances_takeOut id).slot x u hu
        exact ⟨u', hu', hadv.initialized hmark⟩
      · cases hself
        exact ⟨_, Scene.slot?_modifySlot_self ht' _ fun _ => rfl, hi⟩
    | @ask p self s j r =>
      have hc := Scene.change_answer s self r
      refine h.advances (.change hc) hc.advances (fun id hid => ?_) (fun _ hid => hid) fun _ hid => hid
      rcases List.mem_append.1 hid with hid | hid
      · exact .inl (List.mem_append_left _ hid)
      · exact (hc.queues hm.scene.registered id hid).imp (List.mem_append_right _) And.left
    | @back p self s j component =>
      refine h.advances (.putBack _ component) (s.advances_putBack _ component) (fun id hid => .inl ?_)
        (fun id hid => ?_) nofun
      · exact Phase.batch_next p ▸ hid
      · exact (Phase.starting_next p).symm.trans hid
  | @fail p self s j component =>
    refine h.advances (.recover p self.component component) (p.advances_fail s _ component)
      (fun id hid => .inl ?_) nofun nofun
    have hstop : ∀ x, ((s.putBack self.component component).stop x .detached).2.attachQueue =
        s.attachQueue := by
      intro x
      unfold Scene.stop
      split <;> rfl
    cases p with
    | initializing x batch | joining x batch =>
      change id ∈ batch ++ ((s.putBack self.component component).stop x .detached).2.attachQueue at hid
      rw [hstop] at hid
      exact hid
    | _ => exact List.mem_append_right _ hid

end Moment.Marked

theorem Course.marked [Named κ] {past : List (Moment κ)} {m : Moment κ} (h : Course past m) :
    m.Marked := by
  induction h with
  | start => exact .empty
  | step h hs ih => exact ih.step h.sound h.timed hs

/-- Whoever waits in the queue in the course of an update has no subscription. -/
def Moment.Unheard (m : Moment κ) : Prop :=
  m.phase = .idle ∨ ∀ id ∈ m.scene.attachQueue, id ∉ m.scene.bus.holders

namespace Scene

variable [Named κ]

theorem holders_answer (s : Scene κ) (self : Caller) (r : Request κ) {c : ComponentId}
    (h : c ∈ (r.answer self s).2.bus.holders) : c = self.component ∨ c ∈ s.bus.holders := by
  cases r with
  | subscribe key filter =>
    simp only [Request.answer, Scene.subscribe] at h
    split at h
    · exact .inr h
    · exact Bus.mem_holders_subscribe h
  | unsubscribe key => exact .inr (Bus.mem_holders_withdraw h)
  | addComponent owner component =>
    simp only [Request.answer, Scene.addComponent] at h
    split at h <;> exact .inr h
  | stop id ending =>
    simp only [Request.answer, Scene.stop] at h
    split at h <;> exact .inr h
  | removeEntity id =>
    simp only [Request.answer, Scene.removeEntity] at h
    split at h
    · exact .inr h
    · split at h <;> exact .inr h
  | _ => exact .inr h

end Scene

namespace Moment.Unheard

theorem act {s s' : Scene κ} {p p' : Phase κ} {j marks : Journal κ}
    (h : (⟨p, none, s, j⟩ : Moment κ).Unheard) (ha : Act s p p' s' marks) :
    (⟨p', none, s', j ++ marks⟩ : Moment κ).Unheard := by
  have hview : ∀ {s' : Scene κ}, s'.desk = s.desk → p ≠ .idle →
      ∀ id ∈ s'.attachQueue, id ∉ s'.bus.holders := by
    intro s' heq hp
    obtain ⟨hq, hb⟩ := Prod.mk.inj heq
    rw [hq, hb]
    exact h.resolve_left hp
  cases ha with
  | begin => exact .inr fun id hid => absurd hid List.not_mem_nil
  | @take late m bus hi hpop =>
    obtain ⟨_, htopics⟩ := (Bus.pop?_eq_some_iff _ _ _).1 hpop
    refine .inr fun id hid => ?_
    simp only [Bus.holders, htopics]
    exact h.resolve_left (by rintro ⟨⟩) id hid
  | round => exact .inr (hview s.desk_detachDoomed (by rintro ⟨⟩))
  | drop =>
    exact .inr fun id hid hmem => h.resolve_left (by rintro ⟨⟩) id hid (Bus.mem_holders_withdraw hmem)
  | @clear doomed => exact .inr (hview (s.desk_clear doomed) (by rintro ⟨⟩))
  | _ => exact .inr (hview rfl (by rintro ⟨⟩))

variable [Named κ]

theorem step {m m' : Moment κ} (h : m.Unheard) (hm : m.Sound) (hk : m.Marked) (hs : Step m m') :
    m'.Unheard := by
  cases hs with
  | onward ho =>
    cases ho with
    | hosted c => exact .inl rfl
    | move hmove => exact .inr (h.resolve_left fun hp => by cases hp; cases hmove)
    | act ha => exact h.act ha
    | call hp hslot => exact h
    | @ask p self s j r =>
      refine h.imp_right fun hq id hid hmem => ?_
      have hc := Scene.change_answer s self r
      have hissued : ∀ c ∈ s.bus.holders, s.slot? c ≠ none := by
        intro c hc hnone
        obtain ⟨t, ht, heq⟩ := hm.scene.held c hc
        cases hnone.symm.trans ((Scene.slot?_eq_some_iff hm.scene.registered).2 ⟨ht, heq⟩)
      rcases s.holders_answer self r hmem with rfl | hold
      · -- The caller was called before, so it does not wait.
        obtain ⟨t, ht, hmark⟩ := hk.caller self rfl
        rcases hc.queues hm.scene.registered _ hid with hid | ⟨hnone, _⟩
        · cases (hk.waiting _ (List.mem_append_right _ hid) t ht).symm.trans hmark
        · cases hnone.symm.trans ht
      · rcases hc.queues hm.scene.registered id hid with hid | ⟨hnone, _⟩
        · exact hq id hid hold
        · exact hissued id hold hnone
    | @back p self s j component =>
      refine h.imp (fun hp => ?_) id
      change p = .idle at hp
      subst hp
      rfl
  | fail => exact .inl rfl

end Moment.Unheard

theorem Course.unheard [Named κ] {past : List (Moment κ)} {m : Moment κ} (h : Course past m) :
    m.Unheard := by
  induction h with
  | start => exact .inl rfl
  | step h hs ih => exact ih.step h.sound h.marked hs

end FrameChain
