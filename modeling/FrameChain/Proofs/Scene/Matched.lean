import FrameChain.Proofs.Scene.Stages

set_option autoImplicit false

namespace FrameChain.Scene

variable {κ : Type} {s s' : Scene κ}

def Matched (s : Scene κ) : Prop := s.registry.Matched

theorem matched_empty : Matched ({} : Scene κ) := by
  refine ⟨?_, ?_⟩ <;> simp [registry]

namespace Matched

theorem owner_exists (h : s.Matched) (hr : s.registry.Consistent) {t : Slot κ} (ht : t ∈ s.slots) :
    ∃ e, s.entity? t.owner = some e := by
  obtain ⟨f, hf, heq⟩ := h.owned _ (List.mem_map_of_mem ht)
  obtain ⟨⟨key, e⟩, he, rfl⟩ := List.mem_map.1 hf
  obtain rfl : key = t.owner := heq
  exact ⟨e, (entity?_eq_some_iff hr).2 he⟩

theorem components_eq (h : s.Matched) {key : EntityId} {e : Entity} (he : (key, e) ∈ s.entities) :
    e.components = (s.slots.filter fun t => t.owner = key).map (·.id) := by
  have hl := h.listed _ (List.mem_map_of_mem he)
  simp only [registry, List.filter_map, List.map_map] at hl
  exact hl

theorem of_registry (h : s.Matched) (hr : s'.registry = s.registry) : s'.Matched := by
  unfold Matched
  rw [hr]
  exact h

theorem modifySlot (h : s.Matched) (id : ComponentId) (f : Slot κ → Slot κ)
    (hid : ∀ t, (f t).id = t.id) (howner : ∀ t, (f t).owner = t.owner) : (s.modifySlot id f).Matched :=
  h.of_registry (s.registry_modifySlot id f hid howner)

theorem markStopped (h : s.Matched) (id : ComponentId) (ending : Ending) :
    (s.markStopped id ending).Matched :=
  h.modifySlot id _ (fun t => by split <;> rfl) fun t => by split <;> rfl

theorem addEntity (h : s.Matched) (hr : s.registry.Consistent) (name : String) :
    (s.addEntity name).2.Matched := by
  unfold Matched
  rw [registry_addEntity]
  exact Registry.Matched.addEntity h hr

theorem addComponent [Named κ] (h : s.Matched) {owner : EntityId} {e : Entity}
    (ho : s.entity? owner = some e) (component : κ) : (s.addComponent owner component).2.Matched := by
  unfold Matched
  rw [registry_addComponent ho]
  exact Registry.Matched.attach h ⟨_, mem_registry_entities ho, rfl⟩

theorem change [Named κ] (h : s.Matched) (hr : s.registry.Consistent)
    (hc : ChangeBy (EntityPatch.Keeps Entity.components) s s') : s'.Matched := by
  cases hc with
  | added name => exact h.addEntity hr name
  | @patched key patch hkeeps =>
    exact h.of_registry (s.registry_modifyEntity key patch.apply fun e he =>
      hkeeps e ((entity?_eq_some_iff hr).2 he))
  | @doomed id =>
    exact h.of_registry (s.registry_modifyEntity id (fun e => { e with removing := true }) fun _ _ => rfl)
  | attached component ho => exact h.addComponent ho component
  | stopped id ending => exact h.markStopped id ending
  | edited id f => exact h.modifySlot id _ (fun _ => rfl) fun _ => rfl
  | _ => exact h

theorem takeOut (h : s.Matched) (id : ComponentId) : (s.takeOut id).Matched :=
  h.modifySlot id _ (fun _ => rfl) fun _ => rfl

theorem putBack (h : s.Matched) (id : ComponentId) (component : κ) : (s.putBack id component).Matched :=
  h.modifySlot id _ (fun _ => rfl) fun _ => rfl

theorem setState (h : s.Matched) (id : ComponentId) (state : Lifecycle) : (s.setState id state).Matched :=
  h.modifySlot id _ (fun _ => rfl) fun _ => rfl

theorem stop (h : s.Matched) (id : ComponentId) (ending : Ending) : (s.stop id ending).2.Matched := by
  unfold Scene.stop
  cases s.slot? id with
  | none => exact h
  | some t => exact h.markStopped id ending

theorem recover (h : s.Matched) (p : Phase κ) : (p.recover s).Matched := by
  cases p with
  | initializing id batch | joining id batch => exact h.stop id .detached
  | _ => exact h

theorem detachComponents (h : s.Matched) (entity : EntityId) : (s.detachComponents entity).Matched := by
  unfold Scene.detachComponents
  cases s.entity? entity with
  | none => exact h
  | some e => exact List.foldlRecOn e.components _ h fun s hs id _ => hs.markStopped id .detached

theorem detachDoomed (h : s.Matched) : s.detachDoomed.Matched :=
  List.foldlRecOn (motive := Matched) s.removalQueue _ h fun _ hs entity _ => hs.detachComponents entity

theorem dropSlot (h : s.Matched) (hr : s.registry.Consistent) {slot t : Slot κ}
    (ht : s.slot? slot.id = some t) (howner : t.owner = slot.owner) : (s.dropSlot slot).Matched := by
  have hmem : (slot.id, slot.owner) ∈ s.registry.slots := by
    have hm : (t.id, t.owner) ∈ s.registry.slots := List.mem_map_of_mem (slot?_mem ht)
    rwa [slot?_id ht, howner] at hm
  unfold Matched
  rw [registry_dropSlot]
  exact Registry.Matched.drop h hr hmem

theorem removeIfEmpty (h : s.Matched) (entity : EntityId) : (s.removeIfEmpty entity).Matched := by
  unfold Scene.removeIfEmpty
  split
  · rename_i hany
    obtain ⟨e, he, hempty⟩ := (Option.any_eq_true _ _).1 hany
    have hmem := mem_registry_entities he
    rw [List.isEmpty_iff.1 hempty] at hmem
    have hrest := Registry.Matched.removeEntity h hmem
    rw [← registry_removeEntity] at hrest
    exact hrest
  · exact h

theorem clear (h : s.Matched) (doomed : List EntityId) :
    (doomed.foldl Scene.removeIfEmpty s).Matched :=
  List.foldlRecOn (motive := Matched) doomed _ h fun _ hs entity _ => hs.removeIfEmpty entity

end Matched

end FrameChain.Scene
