import FrameChain.Proofs.Moment.Course

set_option autoImplicit false

namespace FrameChain

variable {κ : Type}

def Scene.Holds (s : Scene κ) (slot : Slot κ) : Prop :=
  ∃ t, s.slot? slot.id = some t ∧ t.initialized = slot.initialized ∧ t.state = slot.state ∧
    (t.state = .finished ∨ t.state = .detached)

theorem Lifecycle.isDone_of_stopped {a : Lifecycle} (h : a = .finished ∨ a = .detached) :
    a.isDone = true := by
  rcases h with rfl | rfl <;> rfl

theorem Lifecycle.stopped_of_isDone {a : Lifecycle} (hd : a.isDone = true) (hne : a ≠ .removed) :
    a = .finished ∨ a = .detached := by
  cases a
  case finished => exact .inl rfl
  case detached => exact .inr rfl
  case removed => exact absurd rfl hne
  all_goals cases hd

theorem Scene.Holds.continues {s s' : Scene κ} {slot : Slot κ} (h : s.Holds slot)
    (ha : s.Advances s') (hc : s.Continues s') : s'.Holds slot := by
  obtain ⟨t, ht, hslot, hstate, hstopped⟩ := h
  have hdone := Lifecycle.isDone_of_stopped hstopped
  obtain ⟨t', ht', hadv⟩ := ha.slot _ t ht
  rcases hc _ t' ht' with hfresh | ⟨u, hu, hcont⟩
  · have hnew := hadv.state.isDone hdone
    rw [hfresh.state] at hnew
    cases hnew
  · cases ht.symm.trans hu
    have hsame : t'.state = t.state := by
      rcases hcont.state with hsame | ⟨hlive, _⟩
      · exact hsame
      · cases hlive.symm.trans hdone
    exact ⟨t', ht', hcont.initialized.trans hslot, hsame.trans hstate, hsame ▸ hstopped⟩

def Phase.Retires (s : Scene κ) : Phase κ → Prop
  | ending slot _ _ | removing slot _ _ => s.Holds slot ∧ slot.initialized = true
  | dropping slot _ _ => s.Holds slot
  | _ => True

theorem Phase.Retires.continues {s s' : Scene κ} {p : Phase κ} (h : p.Retires s)
    (ha : s.Advances s') (hc : s.Continues s') : p.Retires s' := by
  cases p with
  | ending slot doomed rest | removing slot doomed rest => exact ⟨h.1.continues ha hc, h.2⟩
  | dropping slot doomed rest => exact Scene.Holds.continues h ha hc
  | _ => trivial

theorem Phase.Retires.next {s : Scene κ} {p : Phase κ} (h : p.Retires s) : p.next.Retires s := by
  cases p with
  | ending slot doomed rest => exact h
  | removing slot doomed rest => exact h.1
  | dropping slot doomed rest => exact h
  | _ => trivial

theorem Phase.Retires.move {s : Scene κ} {p p' : Phase κ} (hr : p.Ready s)
    (hs : ∀ t ∈ s.slots, t.state ≠ .removed) (h : Move s p p') : p'.Retires s := by
  have hread : ∀ {id slot rest}, s.slot? id = some slot → s.Stopped (id :: rest) →
      s.Holds slot := by
    intro id slot rest hslot hstopped
    obtain ⟨t, ht, hd⟩ := hstopped.done id List.mem_cons_self
    cases hslot.symm.trans ht
    have hid := Scene.slot?_id hslot
    subst hid
    refine ⟨slot, hslot, rfl, rfl, ?_⟩
    exact Lifecycle.stopped_of_isDone hd (hs slot (Scene.slot?_mem hslot))
  cases h with
  | unseen h hi => exact hread h hr
  | endHook h hi hstate => exact ⟨hread h hr, hi⟩
  | _ => trivial

theorem Phase.Retires.act {s s' : Scene κ} {p p' : Phase κ} {marks : Journal κ}
    (h : Act s p p' s' marks) : p'.Retires s' := by
  cases h <;> trivial

namespace Moment

variable [Named κ]

theorem Sound.retires_step {m m' : Moment κ} (hm : m.Sound) (h : m.phase.Retires m.scene)
    (hs : Step m m') : m'.phase.Retires m'.scene := by
  cases hs with
  | onward ho =>
    cases ho with
    | hosted c => trivial
    | move hmove => exact .move hm.ready (fun t ht => (hm.scene.fits t ht).present) hmove
    | act hact => exact .act hact
    | @call p callback id s j slot hp hslot => exact h.continues (s.advances_takeOut id) (.takeOut id)
    | @ask p self s j r =>
      have hc := Scene.change_answer s self r
      exact h.continues hc.advances (.change hc)
    | @back p self s j component =>
      exact (h.continues (s.advances_putBack _ component) (.putBack _ component)).next
  | fail => trivial

end Moment

theorem Course.retires [Named κ] {past : List (Moment κ)} {m : Moment κ} (h : Course past m) :
    m.phase.Retires m.scene := by
  induction h with
  | start => trivial
  | step h hs ih => exact h.sound.retires_step ih hs

end FrameChain
