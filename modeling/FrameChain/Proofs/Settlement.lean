import FrameChain.Proofs.Moment.Matched
import FrameChain.Proofs.Moment.Settling
import FrameChain.Proofs.Removal

set_option autoImplicit false

/-! The callbacks of retirement may attach components, stop them, remove entities and fail. As long as
they return and nobody writes to the component list or the flag of an entity, retirement ends. Whatever
is written, the rounds that `retire` allows are enough if any number is. -/
namespace FrameChain

variable {κ ω : Type} [Named κ]

namespace Turn

open Scene

variable (b : Behaviour κ ω)

theorem outcome_retireRecorded (σ : Setting κ (ω × Journal κ)) :
    (retireRecorded b).outcome σ =
      (retireRoundsRecorded b (σ.scene.slots.length + 2)).outcome σ := by
  rw [retireRecorded, outcome_bind, outcome_scene]

end Turn

def Moment.leaving (m : Moment κ) : List EntityId := m.phase.takenUp ++ m.scene.removalQueue

namespace Scene

variable {s s' : Scene κ} {key : EntityId}

theorem ChangeBy.queue {P : EntityPatch → Entity → Prop} (hc : ChangeBy P s s') :
    ∃ ids, s'.removalQueue = s.removalQueue ++ ids ∧ ∀ key ∈ ids, ∃ e, s.entity? key = some e := by
  have hnothing : s'.removalQueue = s.removalQueue →
      ∃ ids, s'.removalQueue = s.removalQueue ++ ids ∧ ∀ key ∈ ids, ∃ e, s.entity? key = some e :=
    fun hq => ⟨[], by rw [hq, List.append_nil], fun _ hkey => nomatch hkey⟩
  cases hc with
  | @doomed id e he hr =>
    refine ⟨[id], rfl, fun key hkey => ?_⟩
    rw [List.mem_singleton.1 hkey]
    exact ⟨e, he⟩
  | @attached owner e component ho =>
    refine hnothing ?_
    simp only [addComponent, ho]
    rfl
  | _ => exact hnothing rfl

omit [Named κ] in
theorem mem_queue_or_gone {doomed : List EntityId}
    (h : key ∈ doomed ∨ key ∈ s.removalQueue ∨ s.entity? key = none) :
    key ∈ (doomed.foldl removeIfEmpty s).removalQueue ∨
      (doomed.foldl removeIfEmpty s).entity? key = none := by
  induction doomed generalizing s with
  | nil => exact h.resolve_left List.not_mem_nil
  | cons id rest ih =>
    refine ih ?_
    rcases h with hkey | hkey | hgone
    · rcases List.mem_cons.1 hkey with rfl | hkey
      · right
        unfold removeIfEmpty
        split
        · right
          rw [entity?_removeEntity, if_pos rfl]
        · exact .inl (List.mem_append_right _ (List.mem_singleton_self _))
      · exact .inl hkey
    · right; left
      unfold removeIfEmpty
      split
      · exact hkey
      · exact List.mem_append_left _ hkey
    · right; right
      exact Option.eq_none_iff_forall_not_mem.2 fun e he => by
        cases hgone.symm.trans (entity?_of_removeIfEmpty he)

end Scene

theorem Onward.leaving {m m' : Moment κ} (ho : Onward m m') :
    (∀ key ∈ m'.leaving, key ∈ m.leaving ∨ ∃ e, m.scene.entity? key = some e) ∧
    ∀ key ∈ m.leaving, key ∈ m'.leaving ∨ m'.scene.entity? key = none := by
  have hsame : m'.leaving = m.leaving →
      (∀ key ∈ m'.leaving, key ∈ m.leaving ∨ ∃ e, m.scene.entity? key = some e) ∧
      ∀ key ∈ m.leaving, key ∈ m'.leaving ∨ m'.scene.entity? key = none := fun heq =>
    ⟨fun key hkey => .inl (heq ▸ hkey), fun key hkey => .inl (heq ▸ hkey)⟩
  have hchange {p : Phase κ} {calling : Option Caller} {s s' : Scene κ} {j j' : Journal κ}
      (hc : Scene.Change s s') :
      (∀ key ∈ (⟨p, calling, s', j'⟩ : Moment κ).leaving,
        key ∈ (⟨p, calling, s, j⟩ : Moment κ).leaving ∨ ∃ e, s.entity? key = some e) ∧
      ∀ key ∈ (⟨p, calling, s, j⟩ : Moment κ).leaving,
        key ∈ (⟨p, calling, s', j'⟩ : Moment κ).leaving ∨ s'.entity? key = none := by
    obtain ⟨ids, hqueue, hthere⟩ := hc.queue
    simp only [Moment.leaving, hqueue, ← List.append_assoc, List.mem_append]
    exact ⟨fun key hkey => hkey.imp_right (hthere key), fun key hkey => .inl (.inl hkey)⟩
  cases ho with
  | @hosted s j c => exact hchange (Scene.change_apply s c)
  | move hm => exact hsame (by cases hm <;> rfl)
  | @act p p' s s' j marks ha =>
    cases ha with
    | round =>
      refine hsame ?_
      change s.removalQueue ++ s.detachDoomed.removalQueue = s.removalQueue
      rw [s.detachDoomed_frame.1, List.append_nil]
    | @clear doomed =>
      refine ⟨fun key hkey => .inl ?_, fun key hkey => ?_⟩
      · rcases Scene.mem_removalQueue_clear hkey with hqueue | ⟨hdoomed, -⟩
        · exact List.mem_append_right _ hqueue
        · exact List.mem_append_left _ hdoomed
      · exact Scene.mem_queue_or_gone ((List.mem_append.1 hkey).imp_right .inl)
    | _ => exact hsame rfl
  | call => exact hsame rfl
  | @ask p self s j r => exact hchange (Scene.change_answer s self r)
  | @back p self s j component => exact hsame (by cases p <;> rfl)

theorem Path.leaving_issued {m : Moment κ} (h : Path ⟨.idle, none, {}, []⟩ m) :
    ∀ key ∈ m.leaving, key.val ≤ m.scene.entitiesIssued := by
  induction h with
  | refl => exact fun key hkey => nomatch hkey
  | @tail m m' hpath hs ih =>
    have hsound := Moment.Sound.empty.along hpath
    have hdrafts := hs.redrafts hsound (Journal.patches_any _)
    have hback : ∀ key ∈ m'.leaving, key ∈ m.leaving ∨ ∃ e, m.scene.entity? key = some e := by
      cases hs with
      | onward ho => exact ho.leaving.1
      | @fail p self s j component =>
        refine fun key hkey => .inl (List.mem_append_right _ ?_)
        cases p with
        | initializing x batch | joining x batch =>
          change key ∈ ((s.putBack self.component component).stop x .detached).2.removalQueue at hkey
          unfold Scene.stop at hkey
          split at hkey <;> exact hkey
        | _ => exact hkey
    intro key hkey
    refine Nat.le_trans ?_ hdrafts.issued
    rcases hback key hkey with hold | ⟨e, he⟩
    · exact ih key hold
    · exact hsound.scene.registered.entities_issued _ (Scene.mem_registry_entities he)

omit [Named κ] in
theorem Scene.Redrafts.gone {P : EntityPatch → Entity → Prop} {s s' : Scene κ} (h : s.Redrafts P s')
    (hr : s.registry.Consistent) {key : EntityId} (hi : key.val ≤ s.entitiesIssued)
    (hgone : s.entity? key = none) : s'.entity? key = none := by
  refine Option.eq_none_iff_forall_not_mem.2 fun e' he' => ?_
  rcases h.record key e' (Scene.entity?_mem he') with ⟨e, he, -⟩ | ⟨name, rfl, -⟩
  · cases hgone.symm.trans ((Scene.entity?_eq_some_iff hr).2 he)
  · exact Nat.not_succ_le_self _ hi

namespace Stretch

variable {m m' : Moment κ}

theorem gone (h : Stretch m m') (hm : Path ⟨.idle, none, {}, []⟩ m) (hp : m'.phase.takenUp = [])
    (hq : m'.scene.removalQueue = []) {key : EntityId} (hkey : key ∈ m.leaving) :
    m'.scene.entity? key = none := by
  have hdue : ∀ n, Stretch m n → key.val ≤ n.scene.entitiesIssued ∧
      (key ∈ n.leaving ∨ n.scene.entity? key = none) := by
    intro n hn
    induction hn with
    | refl => exact ⟨hm.leaving_issued key hkey, .inl hkey⟩
    | @tail n n' hn ho ih =>
      have hsound := Moment.Sound.empty.along (hm.trans (Stretch.path hn))
      have hdrafts := (Step.onward ho).redrafts hsound (Journal.patches_any _)
      refine ⟨Nat.le_trans ih.1 hdrafts.issued, ?_⟩
      rcases ih.2 with hleaving | hgone
      · exact ho.leaving.2 key hleaving
      · exact .inr (hdrafts.gone hsound.scene.registered ih.1 hgone)
  refine (hdue m' h).2.resolve_left fun hleaving => ?_
  rw [Moment.leaving, hp, hq] at hleaving
  cases hleaving

theorem met (h : Stretch m m') :
    ∀ mark ∈ m'.journal.drop m.journal.length, ∀ s ∈ mark.scenes,
      ∃ n : Moment κ, Stretch m n ∧ Stretch n m' ∧ n.scene = s := by
  induction h with
  | refl =>
    intro mark hmark
    rw [List.drop_length] at hmark
    exact absurd hmark List.not_mem_nil
  | @tail n m' hn ho ih =>
    intro mark hmark s hs
    obtain ⟨marks, hj, hscenes⟩ := Step.journal (.onward ho)
    rw [hj, List.drop_append_of_le_length (Stretch.path hn).journal.length_le] at hmark
    rcases List.mem_append.1 hmark with hmark | hmark
    · obtain ⟨x, hx, hrest, heq⟩ := ih mark hmark s hs
      exact ⟨x, hx, hrest.tail ho, heq⟩
    · rcases hscenes mark hmark s hs with rfl | rfl
      · exact ⟨n, hn, .single ho, rfl⟩
      · exact ⟨m', hn.tail ho, .refl, rfl⟩

end Stretch

section

variable {b : Behaviour κ ω} {w : ω} {ops : List (HostOp κ ω)} {fuel : Nat} {delta absolute : Seconds}

end

end FrameChain
