import FrameChain.Proofs.Moment
import FrameChain.Proofs.Scene.Sound

set_option autoImplicit false

namespace FrameChain.Scene

variable {κ : Type} {s : Scene κ} {out starting : Option ComponentId} {batch : List ComponentId}

theorem Sound.takeOut (h : s.Sound none starting batch) (id : ComponentId) :
    (s.takeOut id).Sound (some id) starting batch := by
  refine h.modifySlot id _ (fun _ => rfl) (fun _ => rfl) rfl fun t ht => ?_
  have hold := h.fits t ht
  refine ⟨fun hid => ⟨fun _ => congrArg some hid.symm, hold.present, hold.initialized, hold.queued⟩,
    fun _ => ⟨fun hn => ?_, hold.present, hold.initialized, hold.queued⟩⟩
  cases hold.seated hn

theorem Sound.putBack {id : ComponentId} (h : s.Sound (some id) starting batch) (component : κ) :
    (s.putBack id component).Sound none starting batch := by
  refine h.modifySlot id _ (fun _ => rfl) (fun _ => rfl) rfl fun t ht => ?_
  have hold := h.fits t ht
  refine ⟨fun _ => ⟨fun hn => ?_, hold.present, hold.initialized, hold.queued⟩,
    fun hne => ⟨fun hn => ?_, hold.present, hold.initialized, hold.queued⟩⟩
  · cases hn
  · exact absurd (Option.some.inj (hold.seated hn)).symm hne

theorem Sound.component_isSome (h : s.Sound none starting batch) {t : Slot κ} (ht : t ∈ s.slots) :
    ∃ component, t.component = some component := by
  cases hc : t.component with
  | none => cases (h.fits t ht).seated hc
  | some component => exact ⟨component, rfl⟩

theorem Sound.begin (h : s.Sound out starting []) (frame : Frame) (absolute : Seconds) :
    ({ s with frame, absolute, attachQueue := [] } : Scene κ).Sound out starting s.attachQueue := by
  refine ⟨h.registered, ?_, ?_, ?_, h.tidy, h.held⟩ <;> rw [List.append_nil]
  · exact h.fits
  · exact h.queue_sorted
  · exact h.queue_issued

theorem Sound.passOver {id : ComponentId} (h : s.Sound out starting (id :: batch))
    (hid : ∀ t, s.slot? id = some t → t.state ≠ .new) : s.Sound out starting batch := by
  refine ⟨h.registered, fun t ht => ?_, (List.pairwise_cons.1 h.queue_sorted).2,
    fun id hid => h.queue_issued id (List.mem_cons_of_mem _ hid), h.tidy, h.held⟩
  have hold := h.fits t ht
  refine ⟨hold.seated, hold.present, hold.initialized, fun hn => (hold.queued hn).imp_right ?_⟩
  intro hmem
  rcases List.mem_cons.1 hmem with heq | hmem
  · exact absurd hn (hid t ((slot?_eq_some_iff h.registered).2 ⟨ht, heq⟩))
  · exact hmem

theorem Sound.startInit {id : ComponentId} (h : s.Sound out none (id :: batch)) :
    (s.modifySlot id fun slot => { slot with initialized := true }).Sound out (some id) batch := by
  have hnext : s.Sound out (some id) batch := by
    refine ⟨h.registered, fun t ht => ?_, (List.pairwise_cons.1 h.queue_sorted).2,
      fun id hid => h.queue_issued id (List.mem_cons_of_mem _ hid), h.tidy, h.held⟩
    have hold := h.fits t ht
    refine ⟨hold.seated, hold.present, fun hi => ?_, fun hn => ?_⟩
    · cases hold.initialized hi
    · rcases hold.queued hn with hs | hq
      · cases hs
      · rcases List.mem_cons.1 hq with heq | hq
        · exact .inl (congrArg some heq.symm)
        · exact .inr hq
  refine hnext.modifySlot id _ (fun _ => rfl) (fun _ => rfl) rfl fun t ht => ⟨fun _ => ?_, fun _ =>
    hnext.fits t ht⟩
  have hold := hnext.fits t ht
  exact ⟨hold.seated, hold.present, hold.initialized, hold.queued⟩

theorem Sound.setInitialized {id : ComponentId} (h : s.Sound out (some id) batch) :
    (s.setState id .initialized).Sound out (some id) batch := by
  refine h.modifySlot id _ (fun _ => rfl) (fun _ => rfl) rfl fun t ht => ⟨fun hid => ?_, fun _ =>
    h.fits t ht⟩
  exact ⟨(h.fits t ht).seated, nofun, fun _ => congrArg some hid.symm, nofun⟩

theorem Sound.setRunning {id : ComponentId} (h : s.Sound out (some id) batch) :
    (s.setState id .running).Sound out none batch := by
  refine h.modifySlot id _ (fun _ => rfl) (fun _ => rfl) rfl fun t ht => ?_
  have hold := h.fits t ht
  refine ⟨fun _ => ⟨hold.seated, nofun, nofun, nofun⟩, fun hne => ⟨hold.seated, hold.present,
    fun hi => ?_, fun hn => .inr ?_⟩⟩
  · exact absurd (Option.some.inj (hold.initialized hi)).symm hne
  · rcases hold.queued hn with hs | hq
    · exact absurd (Option.some.inj hs).symm hne
    · exact hq

theorem Sound.settle {id : ComponentId} (h : s.Sound out (some id) batch)
    (hid : ∀ t, s.slot? id = some t → t.state ≠ .new ∧ t.state ≠ .initialized) :
    s.Sound out none batch := by
  refine ⟨h.registered, fun t ht => ?_, h.queue_sorted, h.queue_issued, h.tidy, h.held⟩
  have hold := h.fits t ht
  have hself : t.id = id → t.state ≠ .new ∧ t.state ≠ .initialized := fun heq =>
    hid t ((slot?_eq_some_iff h.registered).2 ⟨ht, heq⟩)
  refine ⟨hold.seated, hold.present, fun hi => ?_, fun hn => .inr ?_⟩
  · exact absurd hi (hself (Option.some.inj (hold.initialized hi)).symm).2
  · rcases hold.queued hn with hs | hq
    · exact absurd hn (hself (Option.some.inj hs).symm).1
    · exact hq

theorem Sound.requeue (h : s.Sound out starting batch) :
    ({ s with attachQueue := batch ++ s.attachQueue } : Scene κ).Sound out starting [] :=
  ⟨h.registered, h.fits, h.queue_sorted, h.queue_issued, h.tidy, h.held⟩

theorem isDone_of_markStopped {id : ComponentId} {ending : Ending} {t : Slot κ}
    (h : (s.markStopped id ending).slot? id = some t) : t.state.isDone = true := by
  unfold Scene.markStopped at h
  rw [slot?_modifySlot s id id _ fun t => by split <;> rfl] at h
  obtain ⟨u, hu, rfl⟩ := Option.map_eq_some_iff.1 h
  simp only [slot?_id hu, beq_self_eq_true, if_true]
  split
  · assumption
  · cases ending <;> rfl

theorem Sound.stop (h : s.Sound out starting batch) (id : ComponentId) (ending : Ending) :
    (s.stop id ending).2.Sound out starting batch := by
  unfold Scene.stop
  cases s.slot? id with
  | none => exact h
  | some t => exact h.markStopped id ending

theorem Sound.abandon {id : ComponentId} (h : s.Sound out (some id) batch) :
    ({ (s.stop id .detached).2 with
      attachQueue := batch ++ (s.stop id .detached).2.attachQueue } : Scene κ).Sound out none [] := by
  refine ((h.stop id .detached).settle fun t ht => ?_).requeue
  unfold Scene.stop at ht
  cases hs : s.slot? id with
  | none =>
    rw [hs] at ht
    dsimp only at ht
    rw [hs] at ht
    cases ht
  | some u =>
    rw [hs] at ht
    have hd : t.state.isDone = true := isDone_of_markStopped ht
    constructor
    · intro heq
      rw [heq] at hd
      cases hd
    · intro heq
      rw [heq] at hd
      cases hd

theorem nextDelivery?_cases {s s' : Scene κ} {delivery : Delivery}
    (h : s.nextDelivery? = some (delivery, s')) :
    (s.interrupted = some delivery ∧ s' = { s with interrupted := none }) ∨
    (s.interrupted = none ∧ ∃ m bus, s.bus.pop? = some (m, bus) ∧
      delivery = ⟨m, s.bus.subscribers m.key⟩ ∧ s' = { s with bus }) := by
  unfold Scene.nextDelivery? at h
  split at h
  · cases h
    exact .inl ⟨‹_›, rfl⟩
  · obtain ⟨⟨m, bus⟩, hpop, heq⟩ := Option.map_eq_some_iff.1 h
    cases heq
    exact .inr ⟨‹_›, m, bus, hpop, rfl, rfl⟩

theorem nextDelivery?_eq_none_iff (s : Scene κ) :
    s.nextDelivery? = none ↔ s.interrupted = none ∧ s.bus.queue = [] := by
  unfold Scene.nextDelivery?
  cases hi : s.interrupted with
  | none => simp [Bus.pop?_eq_none_iff]
  | some delivery => simp

theorem Sound.pop (h : s.Sound out starting batch) {m : Message} {bus : Bus}
    (hp : s.bus.pop? = some (m, bus)) : ({ s with bus } : Scene κ).Sound out starting batch := by
  obtain ⟨_, ht⟩ := (Bus.pop?_eq_some_iff _ _ _).1 hp
  refine h.of_slots h.registered rfl rfl rfl (h.tidy.congr ht) fun c hc => ?_
  simp only [Bus.holders, ht] at hc
  exact h.held c hc

theorem foldl_frame {τ υ : Type} (view : Scene κ → υ) {f : Scene κ → τ → Scene κ}
    (hf : ∀ s a, view (f s a) = view s) (l : List τ) (s : Scene κ) :
    view (l.foldl f s) = view s := by
  induction l generalizing s with
  | nil => rfl
  | cons a l ih => exact (ih (f s a)).trans (hf s a)

theorem Sound.detachComponents (h : s.Sound out starting batch) (entity : EntityId) :
    (s.detachComponents entity).Sound out starting batch := by
  unfold Scene.detachComponents
  cases s.entity? entity with
  | none => exact h
  | some e =>
    refine List.foldlRecOn e.components _ h fun s hs id _ => ?_
    exact hs.markStopped id .detached

theorem Sound.detachDoomed (h : s.Sound out starting batch) :
    s.detachDoomed.Sound out starting batch := by
  refine List.foldlRecOn s.removalQueue _ ?_ fun s hs entity _ => hs.detachComponents entity
  exact h.of_slots h.registered rfl rfl rfl h.tidy h.held

theorem Sound.dropSlot (h : s.Sound out starting batch) (slot : Slot κ) :
    (s.dropSlot slot).Sound out starting batch := by
  refine ⟨?_, fun u hu => ?_, h.queue_sorted, h.queue_issued,
    h.tidy.withdraw (fun _ => true) slot.id, fun c hc => ?_⟩
  · rw [registry_dropSlot]
    exact h.registered.drop slot.id slot.owner
  · exact h.fits u (List.mem_filter.1 hu).1
  · obtain ⟨u, hu, heq⟩ := h.held c (Bus.mem_holders_withdraw hc)
    refine ⟨u, List.mem_filter.2 ⟨hu, ?_⟩, heq⟩
    rw [bne_iff_ne]
    intro hid
    rw [← heq, hid] at hc
    exact Bus.not_mem_holders_unsubscribeAll _ _ hc

theorem registry_removeEntity (s : Scene κ) (key : EntityId) :
    ({ s with entities := s.entities.filter fun entry => entry.1 != key } : Scene κ).registry =
      s.registry.removeEntity key := by
  simp only [registry, Registry.removeEntity, Registry.mk.injEq, true_and, and_true, List.filter_map]
  congr 1
  refine List.filter_congr fun entry _ => ?_
  simp only [Function.comp_apply, bne, decide_not]
  rfl

theorem Sound.removeIfEmpty (h : s.Sound out starting batch) (entity : EntityId) :
    (s.removeIfEmpty entity).Sound out starting batch := by
  unfold Scene.removeIfEmpty
  split
  · refine h.of_slots ?_ rfl rfl rfl h.tidy h.held
    have hr := h.registered.removeEntity entity
    rw [← registry_removeEntity] at hr
    exact hr
  · exact h.of_slots h.registered rfl rfl rfl h.tidy h.held

theorem Sound.clear (h : s.Sound out starting batch) (doomed : List EntityId) :
    (doomed.foldl Scene.removeIfEmpty s).Sound out starting batch :=
  List.foldlRecOn doomed _ h fun _ hs entity _ => hs.removeIfEmpty entity

end FrameChain.Scene
