import FrameChain.Proofs.Scene.Change
import Mathlib.Data.List.Nodup

set_option autoImplicit false

namespace FrameChain

structure Registry where
  entitiesIssued : Nat
  componentsIssued : Nat
  entities : List (EntityId × List ComponentId)
  slots : List (ComponentId × EntityId)

namespace Registry

structure Consistent (r : Registry) : Prop where
  entities_sorted : r.entities.Pairwise fun e f => e.1.val < f.1.val
  entities_issued : ∀ e ∈ r.entities, e.1.val ≤ r.entitiesIssued
  slots_sorted : r.slots.Pairwise fun t u => t.1.val < u.1.val
  slots_issued : ∀ t ∈ r.slots, 0 < t.1.val ∧ t.1.val ≤ r.componentsIssued

/-- An entity lists its components in the order of the slots. -/
structure Matched (r : Registry) : Prop where
  owned : ∀ t ∈ r.slots, ∃ e ∈ r.entities, e.1 = t.2
  listed : ∀ e ∈ r.entities, e.2 = (r.slots.filter fun t => t.2 = e.1).map (·.1)

def addEntity (r : Registry) : Registry :=
  { r with
    entitiesIssued := r.entitiesIssued + 1
    entities := r.entities ++ [(⟨r.entitiesIssued + 1⟩, [])] }

def modify (r : Registry) (key : EntityId) (f : List ComponentId → List ComponentId) : Registry :=
  { r with entities := r.entities.map fun e => if e.1 = key then (e.1, f e.2) else e }

def attach (r : Registry) (owner : EntityId) : Registry :=
  { r.modify owner (· ++ [⟨r.componentsIssued + 1⟩]) with
    componentsIssued := r.componentsIssued + 1
    slots := r.slots ++ [(⟨r.componentsIssued + 1⟩, owner)] }

def drop (r : Registry) (id : ComponentId) (owner : EntityId) : Registry :=
  { r.modify owner (·.filter (· ≠ id)) with slots := r.slots.filter fun t => t.1 ≠ id }

def removeEntity (r : Registry) (id : EntityId) : Registry :=
  { r with entities := r.entities.filter fun e => e.1 ≠ id }

theorem eq_of_sorted {τ : Type} (key : τ → Nat) {l : List τ}
    (h : l.Pairwise fun a b => key a < key b) {a b : τ} (ha : a ∈ l) (hb : b ∈ l)
    (hk : key a = key b) : a = b := by
  have hn : (l.map key).Nodup := List.pairwise_map.2 (h.imp Nat.ne_of_lt)
  exact List.inj_on_of_nodup_map hn ha hb hk

theorem Consistent.addEntity {r : Registry} (h : r.Consistent) : r.addEntity.Consistent := by
  refine ⟨?_, ?_, h.slots_sorted, h.slots_issued⟩
  · refine List.pairwise_append.2 ⟨h.entities_sorted, List.pairwise_singleton _ _, ?_⟩
    intro e he f hf
    rw [List.mem_singleton.1 hf]
    exact Nat.lt_succ_of_le (h.entities_issued e he)
  · intro e he
    rcases List.mem_append.1 he with he | he
    · exact Nat.le_succ_of_le (h.entities_issued e he)
    · rw [List.mem_singleton.1 he]
      exact Nat.le_refl _

theorem Consistent.of_keys {r r' : Registry} (h : r.Consistent)
    (hkeys : r'.entities.map (·.1) = r.entities.map (·.1)) (hslots : r'.slots = r.slots)
    (he : r'.entitiesIssued = r.entitiesIssued) (hc : r'.componentsIssued = r.componentsIssued) :
    r'.Consistent := by
  have hsorted : (r'.entities.map (·.1)).Pairwise fun a b => a.val < b.val := by
    rw [hkeys]
    exact List.pairwise_map.2 h.entities_sorted
  rw [List.pairwise_map] at hsorted
  refine ⟨hsorted, fun e hmem => ?_, hslots ▸ h.slots_sorted, ?_⟩
  · have hkey : e.1 ∈ r.entities.map (·.1) := by
      rw [← hkeys]
      exact List.mem_map_of_mem hmem
    obtain ⟨f, hf, heq⟩ := List.mem_map.1 hkey
    rw [← heq, he]
    exact h.entities_issued f hf
  · rw [hslots, hc]
    exact h.slots_issued

theorem keys_modify (r : Registry) (key : EntityId) (f : List ComponentId → List ComponentId) :
    (r.modify key f).entities.map (·.1) = r.entities.map (·.1) := by
  rw [modify, List.map_map]
  refine List.map_congr_left fun e _ => ?_
  simp only [Function.comp_apply]
  split <;> rfl

theorem Consistent.attach {r : Registry} (h : r.Consistent) (owner : EntityId) :
    (r.attach owner).Consistent := by
  obtain ⟨hsorted, hissued, -, -⟩ := h.of_keys (r.keys_modify owner (· ++ [⟨r.componentsIssued + 1⟩])) rfl rfl rfl
  refine ⟨hsorted, hissued, ?_, ?_⟩
  · refine List.pairwise_append.2 ⟨h.slots_sorted, List.pairwise_singleton _ _, ?_⟩
    intro t ht u hu
    rw [List.mem_singleton.1 hu]
    exact Nat.lt_succ_of_le (h.slots_issued t ht).2
  · intro t ht
    rcases List.mem_append.1 ht with ht | ht
    · exact ⟨(h.slots_issued t ht).1, Nat.le_succ_of_le (h.slots_issued t ht).2⟩
    · rw [List.mem_singleton.1 ht]
      exact ⟨Nat.succ_pos _, Nat.le_refl _⟩

theorem Consistent.drop {r : Registry} (h : r.Consistent) (id : ComponentId) (owner : EntityId) :
    (r.drop id owner).Consistent := by
  obtain ⟨hsorted, hissued, -, -⟩ := h.of_keys (r.keys_modify owner (·.filter (· ≠ id))) rfl rfl rfl
  exact ⟨hsorted, hissued, h.slots_sorted.filter _, fun t ht => h.slots_issued t (List.mem_filter.1 ht).1⟩

theorem Consistent.removeEntity {r : Registry} (h : r.Consistent) (id : EntityId) :
    (r.removeEntity id).Consistent :=
  ⟨h.entities_sorted.filter _, fun e he => h.entities_issued e (List.mem_filter.1 he).1, h.slots_sorted,
    h.slots_issued⟩

theorem exists_mem_modify {r : Registry} {owner : EntityId} (key : EntityId)
    (f : List ComponentId → List ComponentId) (h : ∃ e ∈ r.entities, e.1 = owner) :
    ∃ e ∈ (r.modify key f).entities, e.1 = owner := by
  obtain ⟨e, he, heq⟩ := h
  refine ⟨_, List.mem_map_of_mem he, ?_⟩
  split <;> exact heq

theorem Matched.addEntity {r : Registry} (h : r.Matched) (hr : r.Consistent) : r.addEntity.Matched := by
  refine ⟨fun t ht => ?_, fun e he => ?_⟩
  · obtain ⟨e, he, heq⟩ := h.owned t ht
    exact ⟨e, List.mem_append_left _ he, heq⟩
  · rcases List.mem_append.1 he with he | he
    · exact h.listed e he
    · rw [List.mem_singleton.1 he]
      -- Nothing belongs yet to an id that was not issued before.
      have hnone : (r.slots.filter fun t => t.2 = (⟨r.entitiesIssued + 1⟩ : EntityId)) = [] := by
        rw [List.filter_eq_nil_iff]
        intro t ht hown
        obtain ⟨f, hf, heq⟩ := h.owned t ht
        have hle := hr.entities_issued f hf
        rw [heq, of_decide_eq_true hown] at hle
        exact Nat.not_succ_le_self _ hle
      change [] = ((r.slots.filter _).map _)
      rw [hnone, List.map_nil]

theorem Matched.attach {r : Registry} (h : r.Matched) {owner : EntityId}
    (ho : ∃ e ∈ r.entities, e.1 = owner) : (r.attach owner).Matched := by
  refine ⟨fun t ht => ?_, fun e he => ?_⟩
  · refine exists_mem_modify owner (· ++ [⟨r.componentsIssued + 1⟩]) ?_
    rcases List.mem_append.1 ht with ht | ht
    · exact h.owned t ht
    · rw [List.mem_singleton.1 ht]
      exact ho
  · obtain ⟨f, hf, rfl⟩ := List.mem_map.1 he
    have hl := h.listed f hf
    by_cases hfo : f.1 = owner
    · simp [Registry.attach, hfo, hl, List.filter_append]
    · simp [Registry.attach, hfo, hl, List.filter_append, Ne.symm hfo]

theorem Matched.drop {r : Registry} (h : r.Matched) (hr : r.Consistent) {id : ComponentId}
    {owner : EntityId} (hs : (id, owner) ∈ r.slots) : (r.drop id owner).Matched := by
  refine ⟨fun t ht => exists_mem_modify _ _ (h.owned t (List.mem_filter.1 ht).1), fun e he => ?_⟩
  obtain ⟨f, hf, rfl⟩ := List.mem_map.1 he
  have hl := h.listed f hf
  by_cases hfo : f.1 = owner
  · simp only [Registry.drop, hfo, if_true]
    rw [hl, hfo, List.filter_map, List.filter_filter, List.filter_filter]
    congr 2
    funext t
    exact Bool.and_comm _ _
  · simp only [Registry.drop, hfo, if_false]
    rw [hl, List.filter_filter]
    congr 1
    refine List.filter_congr fun t ht => ?_
    -- The slot that goes does not belong to this entity.
    by_cases hto : t.2 = f.1
    · have hne : t.1 ≠ id := by
        intro hid
        have heq := eq_of_sorted (fun t => t.1.val) hr.slots_sorted ht hs
          (congrArg ComponentId.val hid)
        rw [heq] at hto
        exact hfo hto.symm
      simp [hne]
    · simp [hto]

theorem Matched.removeEntity {r : Registry} (h : r.Matched) {id : EntityId}
    (hs : (id, []) ∈ r.entities) : (r.removeEntity id).Matched := by
  refine ⟨fun t ht => ?_, fun e he => h.listed e (List.mem_filter.1 he).1⟩
  obtain ⟨e, he, heq⟩ := h.owned t ht
  refine ⟨e, List.mem_filter.2 ⟨he, ?_⟩, heq⟩
  rw [decide_eq_true_eq]
  intro hid
  have hl := h.listed _ hs
  have hmem : t.1 ∈ ((r.slots.filter fun t => t.2 = id).map (·.1)) :=
    List.mem_map_of_mem (List.mem_filter.2 ⟨ht, by simpa using heq.symm.trans hid⟩)
  rw [← hl] at hmem
  cases hmem

end Registry
end FrameChain
