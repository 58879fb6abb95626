import FrameChain.Proofs.Journal
import FrameChain.Proofs.Scene.Stages

set_option autoImplicit false

namespace FrameChain

variable {κ ω τ : Type}

namespace Scene

def seasoned (s : Scene κ) : List ComponentId := (s.slots.filter (·.initialized)).map (·.id)

theorem seasoned_modifySlot (s : Scene κ) (id : ComponentId) (f : Slot κ → Slot κ)
    (hid : ∀ t, (f t).id = t.id) (hi : ∀ t, (f t).initialized = t.initialized) :
    (s.modifySlot id f).seasoned = s.seasoned := by
  have hsame : ((fun t => t.initialized) ∘ fun t => if (t.id == id) = true then f t else t) =
      fun t : Slot κ => t.initialized := by
    funext t
    simp only [Function.comp_apply]
    split
    · exact hi t
    · rfl
  simp only [seasoned, modifySlot, List.filter_map, hsame, List.map_map]
  refine List.map_congr_left fun t _ => ?_
  simp only [Function.comp_apply]
  split
  · exact hid t
  · rfl

theorem seasoned_markStopped (s : Scene κ) (id : ComponentId) (ending : Ending) :
    (s.markStopped id ending).seasoned = s.seasoned :=
  s.seasoned_modifySlot id _ (fun t => by split <;> rfl) fun t => by split <;> rfl

theorem Change.seasoned [Named κ] {s s' : Scene κ} (h : Change s s') : s'.seasoned = s.seasoned := by
  cases h with
  | @attached owner e component ho => simp [Scene.seasoned, addComponent, ho, modifyEntity]
  | stopped id ending => exact s.seasoned_markStopped id ending
  | edited id f => exact s.seasoned_modifySlot id _ (fun _ => rfl) fun _ => rfl
  | _ => rfl

theorem seasoned_dropSlot (s : Scene κ) (slot : Slot κ) :
    (s.dropSlot slot).seasoned = s.seasoned.filter fun id => id != slot.id := by
  simp only [seasoned, dropSlot, List.filter_map, List.filter_filter]
  congr 1
  exact List.filter_congr fun t _ => Bool.and_comm _ _

end Scene

variable [Named κ]

/-- The callback answers or fails, from every setting. -/
def Behaviour.Returns (b : Behaviour κ ω) (callback : Callback) : Prop :=
  ∀ self component σ, ∃ a σ', (b callback self component).run self σ = (.ok a, σ')

structure Behaviour.Relents (b : Behaviour κ ω) : Prop where
  finish : b.Returns .finish
  detach : b.Returns .detach
  remove : b.Returns .remove

theorem Behaviour.Returns.recorded {b : Behaviour κ ω} {callback : Callback}
    (h : b.Returns callback) : b.recorded.Returns callback := by
  intro self component σ
  let noted : Setting κ (ω × Journal κ) :=
    ⟨σ.scene, σ.world.1, σ.world.2 ++ [.called callback self σ.scene]⟩
  obtain ⟨a, σ', hplain⟩ := h self component noted.erase
  have hrun : (((b callback self component).recorded self).run self noted).1 = .ok a :=
    (congrArg Prod.fst (Script.run_recorded self _ noted)).trans (congrArg Prod.fst hplain)
  exact ⟨a, _, Prod.ext hrun rfl⟩

theorem Behaviour.Relents.recorded {b : Behaviour κ ω} (h : b.Relents) : b.recorded.Relents :=
  ⟨h.finish.recorded, h.detach.recorded, h.remove.recorded⟩

namespace Turn

open Scene

variable {b : Behaviour κ ω} {callback : Callback} {seasoned : List ComponentId}

end Turn
end FrameChain
