import FrameChain.Proofs.Scene.Bus
import FrameChain.Proofs.Scene.Registry

set_option autoImplicit false

/-! In the middle of an update one component may be out of its slot, one may be on its way to running,
and a batch may be left of the attach queue; soundness has these as parameters. Nothing is said here of
the records of the entities, in whose place others may be put. -/
namespace FrameChain

variable {κ : Type}

/-- What a slot has to satisfy while `out` is out of its slot, `starting` is being attached, and the
components in `queue` wait for it. -/
structure Slot.Fits (out starting : Option ComponentId) (queue : List ComponentId) (t : Slot κ) :
    Prop where
  seated : t.component = none → out = some t.id
  present : t.state ≠ .removed
  initialized : t.state = .initialized → starting = some t.id
  queued : t.state = .new → starting = some t.id ∨ t.id ∈ queue

namespace Scene

def registry (s : Scene κ) : Registry where
  entitiesIssued := s.entitiesIssued
  componentsIssued := s.componentsIssued
  entities := s.entities.map fun entry => (entry.1, entry.2.components)
  slots := s.slots.map fun t => (t.id, t.owner)

structure Sound (out starting : Option ComponentId) (batch : List ComponentId) (s : Scene κ) :
    Prop where
  registered : s.registry.Consistent
  fits : ∀ t ∈ s.slots, t.Fits out starting (batch ++ s.attachQueue)
  queue_sorted : (batch ++ s.attachQueue).Pairwise fun a b => a.val < b.val
  queue_issued : ∀ id ∈ batch ++ s.attachQueue, s.wasIssued id = true
  tidy : s.bus.Tidy
  held : ∀ c ∈ s.bus.holders, ∃ t ∈ s.slots, t.id = c

/-- A scene between updates. -/
abbrev WellFormed (s : Scene κ) : Prop := s.Sound none none []

theorem wellFormed_empty : WellFormed ({} : Scene κ) := by
  refine ⟨⟨?_, ?_, ?_, ?_⟩, ?_, ?_, ?_, ⟨?_, ?_, ?_⟩, ?_⟩ <;> simp [registry, Bus.holders]

theorem registry_modifySlot (s : Scene κ) (id : ComponentId) (f : Slot κ → Slot κ)
    (hid : ∀ t, (f t).id = t.id) (howner : ∀ t, (f t).owner = t.owner) :
    (s.modifySlot id f).registry = s.registry := by
  simp only [registry, modifySlot, List.map_map, Registry.mk.injEq, true_and]
  refine List.map_congr_left fun t _ => ?_
  simp only [Function.comp_apply]
  split
  · rw [hid, howner]
  · rfl

theorem keys_modifyEntity (s : Scene κ) (key : EntityId) (f : Entity → Entity) :
    (s.modifyEntity key f).entities.map (·.1) = s.entities.map (·.1) := by
  rw [modifyEntity, List.map_map]
  refine List.map_congr_left fun entry _ => ?_
  simp only [Function.comp_apply]
  split <;> rfl

theorem consistent_modifyEntity {s : Scene κ} (h : s.registry.Consistent) (key : EntityId)
    (f : Entity → Entity) : (s.modifyEntity key f).registry.Consistent := by
  refine h.of_keys ?_ rfl rfl rfl
  rw [registry, registry, List.map_map, List.map_map]
  exact s.keys_modifyEntity key f

theorem registry_modifyEntity (s : Scene κ) (key : EntityId) (f : Entity → Entity)
    (hf : ∀ e, (key, e) ∈ s.entities → (f e).components = e.components) :
    (s.modifyEntity key f).registry = s.registry := by
  simp only [registry, modifyEntity, List.map_map, Registry.mk.injEq, true_and, and_true]
  refine List.map_congr_left fun entry hmem => ?_
  simp only [Function.comp_apply, beq_iff_eq]
  split
  · rename_i hkey
    rw [hf entry.2 (hkey ▸ hmem)]
  · rfl

theorem registry_addEntity (s : Scene κ) (name : String) :
    (s.addEntity name).2.registry = s.registry.addEntity := by
  simp [registry, addEntity, Registry.addEntity]

theorem registry_addComponent [Named κ] {s : Scene κ} {owner : EntityId} {e : Entity}
    (h : s.entity? owner = some e) (component : κ) :
    (s.addComponent owner component).2.registry = s.registry.attach owner := by
  simp only [registry, addComponent, h, modifyEntity, Registry.attach, Registry.modify, List.map_map,
    List.map_append, List.map_cons, List.map_nil, Registry.mk.injEq, true_and, and_true]
  refine List.map_congr_left fun e _ => ?_
  simp only [Function.comp_apply, beq_iff_eq]
  split <;> rfl

theorem registry_dropSlot (s : Scene κ) (slot : Slot κ) :
    (s.dropSlot slot).registry = s.registry.drop slot.id slot.owner := by
  simp only [registry, dropSlot, modifyEntity, Registry.drop, Registry.modify, List.map_map,
    Registry.mk.injEq, true_and, List.filter_map]
  constructor
  · refine List.map_congr_left fun e _ => ?_
    simp only [Function.comp_apply, beq_iff_eq]
    split
    · simp [bne, BEq.beq]
    · rfl
  · congr 1
    refine List.filter_congr fun t _ => ?_
    simp only [Function.comp_apply, bne, decide_not]
    rfl

theorem mem_registry_entities {s : Scene κ} {key : EntityId} {e : Entity}
    (h : s.entity? key = some e) : (key, e.components) ∈ s.registry.entities :=
  List.mem_map_of_mem (f := fun entry : EntityId × Entity => (entry.1, entry.2.components))
    (entity?_mem h)

theorem slot?_eq_some_iff {s : Scene κ} (h : s.registry.Consistent) {id : ComponentId}
    {t : Slot κ} : s.slot? id = some t ↔ t ∈ s.slots ∧ t.id = id := by
  refine ⟨fun ht => ⟨slot?_mem ht, slot?_id ht⟩, fun ⟨hmem, hid⟩ => ?_⟩
  have hsome : (s.slot? id).isSome = true := by
    unfold slot?
    exact List.find?_isSome.2 ⟨t, hmem, by simp [hid]⟩
  obtain ⟨u, hu⟩ := Option.isSome_iff_exists.1 hsome
  have hsorted := List.pairwise_map.1 h.slots_sorted
  have heq := Registry.eq_of_sorted (fun t : Slot κ => t.id.val) hsorted (slot?_mem hu) hmem
    (congrArg ComponentId.val ((slot?_id hu).trans hid.symm))
  rw [hu, heq]

theorem entity?_eq_some_iff {s : Scene κ} (h : s.registry.Consistent) {key : EntityId} {e : Entity} :
    s.entity? key = some e ↔ (key, e) ∈ s.entities := by
  refine ⟨entity?_mem, fun hmem => ?_⟩
  have hfound : (s.entities.find? fun entry => entry.1 == key).isSome = true :=
    List.find?_isSome.2 ⟨_, hmem, by simp⟩
  obtain ⟨f, hf⟩ : ∃ f, s.entity? key = some f :=
    Option.isSome_iff_exists.1 (by rw [entity?, Option.isSome_map, hfound])
  have hsorted := List.pairwise_map.1 h.entities_sorted
  have heq := Registry.eq_of_sorted (fun entry : EntityId × Entity => entry.1.val) hsorted
    (entity?_mem hf) hmem rfl
  rw [hf, (Prod.mk.inj heq).2]

section Changes

variable {s s' : Scene κ} {out out' starting starting' : Option ComponentId}
  {batch batch' : List ComponentId}

theorem Sound.of_slots (h : s.Sound out starting batch) (hr : s'.registry.Consistent)
    (hs : s'.slots = s.slots) (hq : s'.attachQueue = s.attachQueue)
    (hi : s'.componentsIssued = s.componentsIssued) (ht : s'.bus.Tidy)
    (hh : ∀ c ∈ s'.bus.holders, ∃ t ∈ s.slots, t.id = c) : s'.Sound out starting batch := by
  refine ⟨hr, ?_, ?_, ?_, ht, ?_⟩
  · rw [hs, hq]
    exact h.fits
  · rw [hq]
    exact h.queue_sorted
  · rw [hq]
    intro id hid
    simpa only [wasIssued, hi] using h.queue_issued id hid
  · rw [hs]
    exact hh

theorem Sound.modifySlot (h : s.Sound out starting batch) (id : ComponentId) (f : Slot κ → Slot κ)
    (hid : ∀ t, (f t).id = t.id) (howner : ∀ t, (f t).owner = t.owner)
    (hsame : batch' = batch)
    (hfits : ∀ t ∈ s.slots,
      (t.id = id → (f t).Fits out' starting' (batch ++ s.attachQueue)) ∧
      (t.id ≠ id → t.Fits out' starting' (batch ++ s.attachQueue))) :
    (s.modifySlot id f).Sound out' starting' batch' := by
  subst hsame
  refine ⟨?_, ?_, h.queue_sorted, h.queue_issued, h.tidy, ?_⟩
  · rw [registry_modifySlot s id f hid howner]
    exact h.registered
  · intro t ht
    obtain ⟨u, hu, rfl⟩ := List.mem_map.1 ht
    by_cases hk : u.id = id
    · simpa [hk, Scene.modifySlot] using (hfits u hu).1 hk
    · simpa [hk, Scene.modifySlot] using (hfits u hu).2 hk
  · intro c hc
    obtain ⟨t, ht, heq⟩ := h.held c hc
    refine ⟨_, List.mem_map_of_mem ht, ?_⟩
    split
    · rw [hid, heq]
    · exact heq

theorem Sound.evolve (h : s.Sound out starting batch) (id : ComponentId) (f : Slot κ → Slot κ)
    (hid : ∀ t, (f t).id = t.id) (hf : ∀ t : Slot κ, t.Evolves (f t)) :
    (s.modifySlot id f).Sound out starting batch := by
  refine h.modifySlot id f hid (fun t => (hf t).owner) rfl fun t ht => ⟨fun _ => ?_, fun _ => h.fits t ht⟩
  have hold := h.fits t ht
  have hev := hf t
  refine ⟨fun hn => ?_, fun hs => ?_, fun hs => ?_, fun hs => ?_⟩
  · rw [hid]
    exact hold.seated (hev.absent.1 hn)
  · rcases hev.state with heq | ⟨_, heq | heq⟩
    · exact hold.present (heq ▸ hs)
    all_goals rw [heq] at hs; cases hs
  · rw [hid]
    rcases hev.state with heq | ⟨_, heq | heq⟩
    · exact hold.initialized (heq ▸ hs)
    all_goals rw [heq] at hs; cases hs
  · rw [hid]
    rcases hev.state with heq | ⟨_, heq | heq⟩
    · exact hold.queued (heq ▸ hs)
    all_goals rw [heq] at hs; cases hs

theorem evolves_stopped (ending : Ending) (t : Slot κ) :
    t.Evolves (if t.state.isDone then t else { t with state := ending.lifecycle }) := by
  split
  · exact .refl t
  · rename_i h
    refine ⟨rfl, rfl, rfl, Iff.rfl, .inr ⟨by simpa using h, ?_⟩⟩
    cases ending
    · exact .inl rfl
    · exact .inr rfl

theorem Sound.markStopped (h : s.Sound out starting batch) (id : ComponentId) (ending : Ending) :
    (s.markStopped id ending).Sound out starting batch :=
  h.evolve id _ (fun t => by split <;> rfl) (evolves_stopped ending)

theorem Sound.addComponent [Named κ] (h : s.Sound out starting batch) {owner : EntityId} {e : Entity}
    (ho : s.entity? owner = some e) (component : κ) :
    (s.addComponent owner component).2.Sound out starting batch := by
  have hr := h.registered.attach owner
  rw [← registry_addComponent ho component] at hr
  refine ⟨hr, ?_, ?_, ?_, ?_, ?_⟩ <;> simp only [Scene.addComponent, ho]
  · intro t ht
    rw [← List.append_assoc]
    rcases List.mem_append.1 ht with ht | ht
    · have hold := h.fits t ht
      exact ⟨hold.seated, hold.present, hold.initialized, fun hn =>
        (hold.queued hn).imp_right fun hq => List.mem_append_left _ hq⟩
    · rw [List.mem_singleton.1 ht]
      refine ⟨fun hn => ?_, fun hn => ?_, fun hn => ?_, fun _ => .inr ?_⟩
      · cases hn
      · cases hn
      · cases hn
      · exact List.mem_append_right _ (List.mem_singleton_self _)
  · rw [← List.append_assoc]
    refine List.pairwise_append.2 ⟨h.queue_sorted, List.pairwise_singleton _ _, ?_⟩
    intro a ha b hb
    have hi := h.queue_issued a ha
    rw [List.mem_singleton.1 hb]
    simp only [wasIssued, Bool.and_eq_true, decide_eq_true_eq] at hi
    exact Nat.lt_succ_of_le hi.2
  · rw [← List.append_assoc]
    intro id hid
    rcases List.mem_append.1 hid with hid | hid
    · have hi := h.queue_issued id hid
      simp only [wasIssued, Bool.and_eq_true, decide_eq_true_eq] at hi ⊢
      omega
    · rw [List.mem_singleton.1 hid]
      simp [wasIssued]
  · exact h.tidy
  · intro c hc
    obtain ⟨t, ht, heq⟩ := h.held c hc
    exact ⟨t, List.mem_append_left _ ht, heq⟩

theorem ChangeBy.tidy [Named κ] {P : EntityPatch → Entity → Prop} (h : ChangeBy P s s') (ht : s.bus.Tidy) : s'.bus.Tidy := by
  cases h with
  | @attached owner e component ho =>
    simp only [Scene.addComponent, ho]
    exact ht
  | sent key data origin => exact ht.send _
  | subscribed key filter => exact ht.subscribe key _ filter
  | unsubscribed key id => exact ht.withdraw (· == key) id
  | _ => exact ht

theorem Sound.change [Named κ] {P : EntityPatch → Entity → Prop} (h : s.Sound out starting batch)
    (hc : ChangeBy P s s') :
    s'.Sound out starting batch := by
  have htidy := hc.tidy h.tidy
  cases hc with
  | same => exact h
  | added name =>
    refine h.of_slots ?_ rfl rfl rfl htidy h.held
    rw [registry_addEntity]
    exact h.registered.addEntity
  | patched => exact h.of_slots (consistent_modifyEntity h.registered _ _) rfl rfl rfl htidy h.held
  | @doomed id =>
    exact h.of_slots (consistent_modifyEntity h.registered id fun e => { e with removing := true })
      rfl rfl rfl htidy h.held
  | attached component ho => exact h.addComponent ho component
  | stopped id ending => exact h.markStopped id ending
  | sent key data origin => exact h.of_slots h.registered rfl rfl rfl htidy h.held
  | subscribed key filter ht =>
    refine h.of_slots h.registered rfl rfl rfl htidy fun c hc => ?_
    rcases Bus.mem_holders_subscribe hc with rfl | hc
    · exact ⟨_, slot?_mem ht, slot?_id ht⟩
    · exact h.held c hc
  | unsubscribed key id =>
    exact h.of_slots h.registered rfl rfl rfl htidy fun c hc =>
      h.held c (Bus.mem_holders_withdraw hc)
  | drained => exact h.of_slots h.registered rfl rfl rfl htidy h.held
  | edited id f =>
    refine h.evolve id _ (fun _ => rfl) fun t => ⟨rfl, rfl, rfl, ?_, .inl rfl⟩
    cases t.component <;> simp

end Changes

end Scene
end FrameChain
