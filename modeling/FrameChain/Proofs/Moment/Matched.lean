import FrameChain.Proofs.Moment.Records
import FrameChain.Proofs.Scene.Matched

set_option autoImplicit false

namespace FrameChain

variable {κ : Type}

def Mark.Grants (mark : Mark κ) : Prop :=
  ∀ self s component reply, mark = .asked self s (.addComponent self.entity component) reply →
    ∃ id, reply = .ok id

structure Moment.Matched (m : Moment κ) : Prop where
  scene : m.journal.Patches (EntityPatch.Keeps Entity.components) → m.scene.Matched
  granted : m.journal.Each fun before mark => before.Patches (EntityPatch.Keeps Entity.components) → mark.Grants

namespace Moment.Matched

theorem empty : (⟨.idle, none, {}, []⟩ : Moment κ).Matched :=
  ⟨fun _ => Scene.matched_empty, .nil⟩

theorem act {s s' : Scene κ} {p p' : Phase κ} {marks : Journal κ} (h : s.Matched)
    (hs : s.Sound none p.starting p.batch) (hr : p.Ready s) (ha : Act s p p' s' marks) : s'.Matched := by
  cases ha with
  | @start id => exact h.modifySlot id _ (fun _ => rfl) fun _ => rfl
  | @initialized id => exact h.setState id .initialized
  | @run id => exact h.setState id .running
  | round => exact h.detachDoomed
  | drop =>
    obtain ⟨-, t, ht, howner⟩ := hr
    exact h.dropSlot hs.registered ht howner
  | clear => exact h.clear _
  | _ => exact h

theorem quiet {s s' : Scene κ} {p p' : Phase κ} {calling calling' : Option Caller} {j marks : Journal κ}
    (h : (⟨p, calling, s, j⟩ : Moment κ).Matched) (hs : marks.Patches (EntityPatch.Keeps Entity.components) → s.Matched → s'.Matched)
    (hm : ∀ self s r reply, Mark.asked self s r reply ∉ marks) :
    (⟨p', calling', s', j ++ marks⟩ : Moment κ).Matched := by
  refine ⟨fun hmild => hs hmild.of_append.2 (h.scene hmild.of_append.1), h.granted.append ?_⟩
  rintro mark hmem - - self s component reply rfl
  exact absurd hmem (hm _ _ _ _)

section

variable [Named κ]

theorem grants {s : Scene κ} {self : Caller} {t : Slot κ} (h : s.Matched)
    (hr : s.registry.Consistent) (ht : s.slot? self.component = some t) (howner : t.owner = self.entity)
    (r : Request κ) : (Mark.asked self s r (r.answer self s).1).Grants := by
  intro self' s' component reply heq
  cases heq
  obtain ⟨e, he⟩ := h.owner_exists hr (Scene.slot?_mem ht)
  rw [howner] at he
  refine ⟨⟨s.componentsIssued + 1⟩, ?_⟩
  simp only [Request.answer, Scene.addComponent, he]

theorem onward {m m' : Moment κ} (h : m.Matched) (hm : m.Sound) (hs : Onward m m') : m'.Matched := by
  cases hs with
  | @hosted s j c =>
    refine h.quiet (fun hmild hscene => ?_) fun _ _ _ _ hmem => by cases List.mem_singleton.1 hmem
    exact hscene.change hm.scene.registered
      (Scene.changeBy_apply s (hmild _ (List.mem_singleton_self _)))
  | move => exact ⟨h.scene, h.granted⟩
  | act ha =>
    refine h.quiet (fun _ hscene => act hscene hm.scene hm.ready ha) fun _ _ _ _ hmem => ?_
    cases ha with
    | take | serve | pass => cases List.mem_singleton.1 hmem
    | _ => cases hmem
  | @call p callback id =>
    exact h.quiet (fun _ hscene => hscene.takeOut id) fun _ _ _ _ hmem => by
      cases List.mem_singleton.1 hmem
  | @ask p self s j r =>
    refine ⟨fun hmild => ?_, h.granted.concat fun hmild => ?_⟩
    · obtain ⟨hj, hr⟩ := hmild.of_append
      exact (h.scene hj).change hm.scene.registered
        (Scene.changeBy_answer s self (hr _ (List.mem_singleton_self _)))
    · obtain ⟨t, ht, howner⟩ := hm.seat self rfl
      exact grants (h.scene hmild) hm.scene.registered ht howner r
  | @back p self s j component => exact ⟨fun hmild => (h.scene hmild).putBack _ component, h.granted⟩

theorem step {m m' : Moment κ} (h : m.Matched) (hm : m.Sound) (hs : Step m m') : m'.Matched := by
  cases hs with
  | onward ho => exact h.onward hm ho
  | @fail p self s j component =>
    refine h.quiet (fun _ hscene => (hscene.putBack self.component component).recover p)
      fun _ _ _ _ hmem => ?_
    cases p with
    | ending | removing => cases List.mem_singleton.1 hmem
    | _ => cases hmem

theorem along {m m' : Moment κ} (h : m.Matched) (hm : m.Sound) (hp : Path m m') : m'.Matched :=
  (hp.keeps (P := fun m => m.Sound ∧ m.Matched) (fun _ _ h hs => ⟨h.1.step hs, h.2.step h.1 hs⟩)
    ⟨hm, h⟩).2

end

end Moment.Matched

end FrameChain
