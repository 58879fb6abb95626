import FrameChain.Proofs.Moment.Matched
import FrameChain.Proofs.Moment.Run
import FrameChain.Scene.Snapshot
import Mathlib.Data.List.Perm.Basic

set_option autoImplicit false

namespace FrameChain

namespace Scene

variable {κ : Type} {s : Scene κ}

structure Paired (s : Scene κ) : Prop where
  /-- The entity of a component exists and lists it once. -/
  owned : ∀ t ∈ s.slots, ∃ e, s.entity? t.owner = some e ∧ e.components.count t.id = 1
  listed : ∀ key e, (key, e) ∈ s.entities →
    ∀ id ∈ e.components, ∃ t, s.slot? id = some t ∧ t.owner = key
  sorted : ∀ key e, (key, e) ∈ s.entities → e.components.Pairwise fun a b => a.val < b.val

theorem nodup_of_sorted {ids : List ComponentId} (h : ids.Pairwise fun a b => a.val < b.val) :
    ids.Nodup :=
  h.imp fun hlt heq => Nat.ne_of_lt hlt (congrArg ComponentId.val heq)

theorem Matched.components_sorted (h : s.Matched) (hr : s.registry.Consistent) {key : EntityId}
    {e : Entity} (he : (key, e) ∈ s.entities) : e.components.Pairwise fun a b => a.val < b.val := by
  rw [h.components_eq he]
  exact List.pairwise_map.2 ((List.pairwise_map.1 hr.slots_sorted).filter _)

theorem Matched.paired (h : s.Matched) (hr : s.registry.Consistent) : s.Paired where
  owned := by
    intro t ht
    obtain ⟨e, he⟩ := h.owner_exists hr ht
    have hmem := entity?_mem he
    refine ⟨e, he, List.count_eq_one_of_mem (nodup_of_sorted (h.components_sorted hr hmem)) ?_⟩
    rw [h.components_eq hmem]
    exact List.mem_map_of_mem (List.mem_filter.2 ⟨ht, decide_eq_true rfl⟩)
  listed := by
    intro key e he id hid
    rw [h.components_eq he] at hid
    obtain ⟨t, ht, rfl⟩ := List.mem_map.1 hid
    obtain ⟨hmem, howner⟩ := List.mem_filter.1 ht
    exact ⟨t, (slot?_eq_some_iff hr).2 ⟨hmem, rfl⟩, of_decide_eq_true howner⟩
  sorted := fun _ _ he => h.components_sorted hr he

end Scene

variable {κ ω : Type} [Named κ]

end FrameChain
