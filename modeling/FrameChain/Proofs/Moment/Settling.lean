import FrameChain.Proofs.Moment.Course
import FrameChain.Proofs.Scene.Matched
import FrameChain.Proofs.Scene.Seasoned

set_option autoImplicit false

/-! A round that retires a seasoned component has one less of them behind it, whatever its callbacks ask
for. A round that retires none calls nobody, and behind it retirement ends, or an entity is queued that
is not there or lists components that are not its own: then the rounds go on for ever and change
nothing. -/
namespace FrameChain

variable {κ ω : Type}

namespace Scene

/-- A round that calls nobody: it has these components still to drop, and then its entities go. -/
structure Winding (s : Scene κ) (doomed : List EntityId) (ids : List ComponentId) : Prop where
  queue : s.removalQueue = []
  stopped : ∀ t ∈ s.slots, t.state.isDone = true → t.id ∈ ids
  listed : ∀ key ∈ doomed, ∀ e, s.entity? key = some e →
    ∀ t ∈ s.slots, t.id ∈ e.components → t.state.isDone = true
  unseasoned : ∀ id ∈ ids, id ∉ s.seasoned

/-- A round finds no component to stop and no entity that can go. -/
structure Spent (s : Scene κ) : Prop where
  stopping : s.stopping = []
  vacant : ∀ t ∈ s.slots, t.id ∉ s.evicted
  kept : ∀ key ∈ s.removalQueue, ((s.entity? key).any fun e => e.components.isEmpty) = false

/-- So many rounds are enough, if any number is. -/
def Within (s : Scene κ) (fuel : Nat) : Prop :=
  s.seasoned.length + 2 ≤ fuel ∨ s.Spent ∧ (1 ≤ fuel ∨ s.removalQueue ≠ [])

variable {s : Scene κ} {doomed : List EntityId} {ids : List ComponentId}

theorem stopping_eq_nil_iff : s.stopping = [] ↔ ∀ t ∈ s.slots, t.state.isDone = false := by
  simp [stopping, List.filter_eq_nil_iff]

theorem Winding.drop {slot : Slot κ} {rest : List ComponentId}
    (h : s.Winding doomed (slot.id :: rest)) : (s.dropSlot slot).Winding doomed rest := by
  have hkept : ∀ t ∈ (s.dropSlot slot).slots, t ∈ s.slots ∧ t.id ≠ slot.id := by
    intro t ht
    obtain ⟨hmem, hne⟩ := List.mem_filter.1 ht
    exact ⟨hmem, by simpa using hne⟩
  refine ⟨h.queue, fun t ht hdone => ?_, fun key hkey e he t ht hlists => ?_, fun id hid hmem => ?_⟩
  · obtain ⟨hmem, hne⟩ := hkept t ht
    exact (List.mem_cons.1 (h.stopped t hmem hdone)).resolve_left hne
  · let unlist : Entity → Entity := fun e =>
      { e with components := e.components.filter fun id => id != slot.id }
    change (s.modifyEntity slot.owner unlist).entity? key = some e at he
    rw [entity?_modifyEntity] at he
    split at he
    · obtain ⟨old, hold, rfl⟩ := Option.map_eq_some_iff.1 he
      exact h.listed key hkey old hold t (hkept t ht).1 (List.mem_filter.1 hlists).1
    · exact h.listed key hkey e he t (hkept t ht).1 hlists
  · rw [seasoned_dropSlot] at hmem
    exact h.unseasoned id (List.mem_cons_of_mem _ hid) (List.mem_filter.1 hmem).1

theorem entity?_removeEntity (s : Scene κ) (key x : EntityId) (events : List Event) :
    ({ s with entities := s.entities.filter fun entry => entry.1 != key, events } : Scene κ).entity? x =
      if x = key then none else s.entity? x := by
  simp only [entity?, List.find?_filter]
  split
  · rename_i hx
    rw [Option.map_eq_none_iff, List.find?_eq_none]
    intro entry _
    by_cases hentry : entry.1 = x <;> simp [hentry, hx]
  · rename_i hx
    congr 2
    funext entry
    by_cases hentry : entry.1 = x <;> simp [hentry, hx]

theorem removeIfEmpty_of_any {key : EntityId}
    (h : ((s.entity? key).any fun e => e.components.isEmpty) = false) :
    s.removeIfEmpty key = { s with removalQueue := s.removalQueue ++ [key] } := by
  rw [removeIfEmpty, if_neg (by rw [h]; exact Bool.false_ne_true)]

theorem entity?_of_removeIfEmpty {key x : EntityId} {e : Entity}
    (h : (s.removeIfEmpty key).entity? x = some e) : s.entity? x = some e := by
  unfold removeIfEmpty at h
  split at h
  · rw [entity?_removeEntity] at h
    split at h
    · cases h
    · exact h
  · exact h

theorem entity?_of_clear {key : EntityId} {e : Entity}
    (h : (doomed.foldl removeIfEmpty s).entity? key = some e) : s.entity? key = some e := by
  induction doomed generalizing s with
  | nil => exact h
  | cons id rest ih => exact entity?_of_removeIfEmpty (ih h)

theorem mem_removalQueue_clear {key : EntityId}
    (h : key ∈ (doomed.foldl removeIfEmpty s).removalQueue) :
    key ∈ s.removalQueue ∨ key ∈ doomed ∧
      (((doomed.foldl removeIfEmpty s).entity? key).any fun e => e.components.isEmpty) = false := by
  induction doomed generalizing s with
  | nil => exact .inl h
  | cons id rest ih =>
    rcases ih h with hqueue | ⟨hrest, hkept⟩
    · unfold removeIfEmpty at hqueue
      split at hqueue
      · exact .inl hqueue
      · rename_i hany
        rcases List.mem_append.1 hqueue with hqueue | hqueue
        · exact .inl hqueue
        · rw [List.mem_singleton.1 hqueue]
          refine .inr ⟨List.mem_cons_self, ?_⟩
          cases he : ((id :: rest).foldl removeIfEmpty s).entity? id with
          | none => rfl
          | some e =>
            rw [entity?_of_clear he] at hany
            simpa using hany
    · exact .inr ⟨List.mem_cons_of_mem _ hrest, hkept⟩

theorem markDetached_of_vacant (h : ∀ t ∈ s.slots, t.id ∉ ids) : s.markDetached ids = s := by
  induction ids with
  | nil => rfl
  | cons id rest ih =>
    have hstep : s.markStopped id .detached = s := by
      have hslots : s.slots.map (fun t => if t.id == id then
          if t.state.isDone then t else { t with state := Ending.detached.lifecycle } else t) =
          s.slots := by
        refine (List.map_congr_left fun t ht => if_neg ?_).trans (List.map_id _)
        rw [beq_iff_eq]
        exact fun heq => h t ht (heq ▸ List.mem_cons_self)
      unfold markStopped modifySlot
      rw [hslots]
    unfold markDetached at ih ⊢
    rw [List.foldl_cons, hstep]
    exact ih fun t ht hmem => h t ht (List.mem_cons_of_mem _ hmem)

theorem Spent.detachDoomed (h : s.Spent) : s.detachDoomed = { s with removalQueue := [] } := by
  rw [detachDoomed_eq]
  exact markDetached_of_vacant h.vacant

theorem clear_of_kept
    (h : ∀ key ∈ doomed, ((s.entity? key).any fun e => e.components.isEmpty) = false) :
    doomed.foldl removeIfEmpty s = { s with removalQueue := s.removalQueue ++ doomed } := by
  induction doomed generalizing s with
  | nil => rw [List.append_nil, List.foldl_nil]
  | cons key rest ih =>
    have hrest := ih (s := { s with removalQueue := s.removalQueue ++ [key] }) fun x hx =>
      h x (List.mem_cons_of_mem _ hx)
    rw [List.foldl_cons, removeIfEmpty_of_any (h key List.mem_cons_self), hrest, List.append_assoc]
    rfl

theorem Spent.round (h : s.Spent) : s.removalQueue.foldl removeIfEmpty s.detachDoomed = s := by
  rw [h.detachDoomed]
  exact clear_of_kept h.kept

end Scene

variable [Named κ] {b : Behaviour κ ω}

namespace Turn

open Scene

variable {g₀ : Station κ ω}

end Turn
end FrameChain
