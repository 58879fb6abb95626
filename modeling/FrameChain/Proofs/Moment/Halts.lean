import FrameChain.Proofs.Moment.Retiring
import Mathlib.Data.List.Chain

set_option autoImplicit false

namespace FrameChain

variable {κ : Type}

def HostCall.stop? : HostCall κ → Option (ComponentId × Scene.Ending)
  | stop id ending => some (id, ending)
  | _ => none

def Request.stop? (self : Caller) : Request κ → Option (ComponentId × Scene.Ending)
  | finish => some (self.component, .finished)
  | stop id ending => some (id, ending)
  | _ => none

def Mark.stop? : Mark κ → Option (ComponentId × Scene.Ending)
  | hosted _ c => c.stop?
  | asked self _ r _ => r.stop? self
  | _ => none

theorem Scene.Ending.lifecycle_inj {a b : Ending} (h : a.lifecycle = b.lifecycle) : a = b := by
  cases a <;> cases b <;> first | rfl | cases h

namespace Scene

variable [Named κ] {s : Scene κ} {id : ComponentId} {t t' : Slot κ}

theorem apply_of_stop? {c : HostCall κ} {ending : Ending} (hc : c.stop? = some (id, ending))
    (ht : s.slot? id = some t) : (c.apply s).2 = s.markStopped id ending := by
  cases c with
  | stop x e =>
    cases hc
    simp only [HostCall.apply, stop, ht]
  | _ => cases hc

theorem answer_of_stop? {self : Caller} {r : Request κ} {ending : Ending}
    (hr : r.stop? self = some (id, ending)) (ht : s.slot? id = some t) :
    (r.answer self s).2 = s.markStopped id ending := by
  cases r with
  | finish =>
    cases hr
    rfl
  | stop x e =>
    cases hr
    simp only [Request.answer, stop, ht]
  | _ => cases hr

omit [Named κ] in
theorem state_of_slots {s' : Scene κ} (hs : s'.slots = s.slots) (ht : s.slot? id = some t)
    (ht' : s'.slot? id = some t') : t'.state = t.state := by
  rw [slot?, hs] at ht'
  cases ht.symm.trans ht'
  rfl

omit [Named κ] in
theorem state_of_modifySlot {x : ComponentId} {f : Slot κ → Slot κ} (hid : ∀ t, (f t).id = t.id)
    (hf : ∀ t, (f t).state = t.state) (ht : s.slot? id = some t)
    (ht' : (s.modifySlot x f).slot? id = some t') : t'.state = t.state := by
  rw [slot?_modifySlot s x id f hid, ht] at ht'
  cases ht'
  dsimp only
  split
  · exact hf t
  · rfl

theorem state_of_addComponent {owner : EntityId} {component : κ} (ht : s.slot? id = some t)
    (ht' : (s.addComponent owner component).2.slot? id = some t') : t'.state = t.state := by
  unfold addComponent at ht'
  split at ht'
  · exact state_of_slots rfl ht ht'
  · simp only [slot?, List.find?_append] at ht ht'
    rw [ht, Option.some_or] at ht'
    cases ht'
    rfl

omit [Named κ] in
theorem state_of_removeEntity {entity : EntityId} (ht : s.slot? id = some t)
    (ht' : (s.removeEntity entity).2.slot? id = some t') : t'.state = t.state := by
  refine state_of_slots ?_ ht ht'
  unfold removeEntity
  split
  · rfl
  · split <;> rfl

omit [Named κ] in
theorem state_of_subscribe {key : String} {component : ComponentId} {filter : Option Condition}
    (ht : s.slot? id = some t) (ht' : (s.subscribe key component filter).2.slot? id = some t') :
    t'.state = t.state := by
  refine state_of_slots ?_ ht ht'
  unfold subscribe
  split <;> rfl

omit [Named κ] in
theorem state_of_markStopped {x : ComponentId} {ending : Ending} (ht : s.slot? id = some t)
    (hd : t.state.isDone = false) (ht' : (s.markStopped x ending).slot? id = some t') :
    t'.state = if id = x then ending.lifecycle else t.state := by
  rw [slot?_markStopped, ht] at ht'
  cases ht'
  simp only [slot?_id ht, beq_iff_eq, hd, Bool.false_eq_true, if_false]
  split <;> rfl

omit [Named κ] in
theorem state_of_stop {x : ComponentId} {ending : Ending} (ht : s.slot? id = some t)
    (hd : t.state.isDone = false) (ht' : (s.stop x ending).2.slot? id = some t') :
    t'.state = if id = x then ending.lifecycle else t.state := by
  unfold stop at ht'
  split at ht'
  · exact state_of_markStopped ht hd ht'
  · rename_i hx
    have hne : id ≠ x := by
      rintro rfl
      cases hx.symm.trans ht
    rw [if_neg hne]
    exact state_of_slots rfl ht ht'

theorem state_of_apply {c : HostCall κ} (hc : ∀ ending, c.stop? ≠ some (id, ending))
    (ht : s.slot? id = some t) (hd : t.state.isDone = false)
    (ht' : (c.apply s).2.slot? id = some t') : t'.state = t.state := by
  cases c with
  | stop x ending =>
    refine (state_of_stop ht hd ht').trans (if_neg ?_)
    rintro rfl
    exact hc ending rfl
  | addComponent owner component => exact state_of_addComponent ht ht'
  | removeEntity entity => exact state_of_removeEntity ht ht'
  | subscribe key component filter => exact state_of_subscribe ht ht'
  | editComponent x f =>
    let edit : Slot κ → Slot κ := fun slot => { slot with component := slot.component.map f }
    exact state_of_modifySlot (f := edit) (fun _ => rfl) (fun _ => rfl) ht ht'
  | _ => exact state_of_slots rfl ht ht'

theorem state_of_answer {self : Caller} {r : Request κ}
    (hr : ∀ ending, r.stop? self ≠ some (id, ending)) (ht : s.slot? id = some t)
    (hd : t.state.isDone = false) (ht' : (r.answer self s).2.slot? id = some t') :
    t'.state = t.state := by
  cases r with
  | finish =>
    refine (state_of_markStopped ht hd ht').trans (if_neg ?_)
    rintro rfl
    exact hr .finished rfl
  | stop x ending =>
    refine (state_of_stop ht hd ht').trans (if_neg ?_)
    rintro rfl
    exact hr ending rfl
  | addComponent owner component => exact state_of_addComponent ht ht'
  | removeEntity entity => exact state_of_removeEntity ht ht'
  | subscribe key filter => exact state_of_subscribe ht ht'
  | _ => exact state_of_slots rfl ht ht'

end Scene

def Phase.attached? : Phase κ → Option ComponentId
  | initializing id _ | joining id _ => some id
  | _ => none

theorem Phase.state_of_recover {p : Phase κ} {s : Scene κ} {x id : ComponentId} {component : κ}
    {t t' : Slot κ} (ht : s.slot? id = some t) (hd : t.state.isDone = false)
    (ht' : (p.recover (s.putBack x component)).slot? id = some t') :
    t'.state = if p.attached? = some id then .detached else t.state := by
  have hput : ∃ u, (s.putBack x component).slot? id = some u ∧ u.state = t.state := by
    rw [Scene.slot?_putBack, ht]
    refine ⟨_, rfl, ?_⟩
    dsimp only
    split <;> rfl
  obtain ⟨u, hu, hsame⟩ := hput
  cases p with
  | initializing y batch | joining y batch =>
    have hstate : t'.state = if id = y then Scene.Ending.detached.lifecycle else u.state :=
      Scene.state_of_stop hu (hsame ▸ hd) ht'
    rw [hstate, hsame]
    simp only [Phase.attached?, Option.some.injEq, eq_comm, Scene.Ending.lifecycle]
  | _ => exact (Scene.state_of_slots rfl hu ht').trans hsame

variable [Named κ]

/-- This step stops a component that is there, whether or not it has stopped before. -/
inductive Halts (id : ComponentId) : Scene.Ending → Moment κ → Moment κ → Prop where
  | hosted {s : Scene κ} {j : Journal κ} {c : HostCall κ} {ending : Scene.Ending} {t : Slot κ}
      (hc : c.stop? = some (id, ending)) (ht : s.slot? id = some t) :
      Halts id ending ⟨.idle, none, s, j⟩ ⟨.idle, none, (c.apply s).2, j ++ [.hosted s c]⟩
  | asked {p : Phase κ} {self : Caller} {s : Scene κ} {j : Journal κ} {r : Request κ}
      {ending : Scene.Ending} {t : Slot κ} (hr : r.stop? self = some (id, ending))
      (ht : s.slot? id = some t) :
      Halts id ending ⟨p, some self, s, j⟩
        ⟨p, some self, (r.answer self s).2, j ++ [.asked self s r (r.answer self s).1]⟩
  /-- The removal of its entity is carried out. -/
  | evicted {s : Scene κ} {j : Journal κ} {t : Slot κ} (h : id ∈ s.evicted)
      (ht : s.slot? id = some t) :
      Halts id .detached ⟨.settling, none, s, j⟩
        ⟨.retiring s.removalQueue s.detachDoomed.stopping, none, s.detachDoomed, j ++ []⟩
  /-- Its `init` or `attach` fails. -/
  | failed {p : Phase κ} {self : Caller} {s : Scene κ} {j : Journal κ} {component : κ} {t : Slot κ}
      (hp : p.attached? = some id) (ht : s.slot? id = some t) :
      Halts id .detached ⟨p, some self, s, j⟩
        ⟨.idle, none, p.recover (s.putBack self.component component), j ++ p.losses⟩

theorem Halts.slot {id : ComponentId} {ending : Scene.Ending} {m m' : Moment κ}
    (h : Halts id ending m m') : ∃ t, m.scene.slot? id = some t := by
  cases h <;> exact ⟨_, ‹_›⟩

theorem Halts.ends {id : ComponentId} {ending : Scene.Ending} {m m' : Moment κ}
    (h : Halts id ending m m') {t t' : Slot κ} (ht : m.scene.slot? id = some t)
    (hd : t.state.isDone = false) (ht' : m'.scene.slot? id = some t') :
    t'.state = ending.lifecycle := by
  cases h with
  | hosted hc hslot =>
    rw [Scene.apply_of_stop? hc hslot] at ht'
    exact (Scene.state_of_markStopped ht hd ht').trans (if_pos rfl)
  | asked hr hslot =>
    rw [Scene.answer_of_stop? hr hslot] at ht'
    exact (Scene.state_of_markStopped ht hd ht').trans (if_pos rfl)
  | evicted hmem _ =>
    rw [Scene.slot?_detachDoomed, ht] at ht'
    cases ht'
    dsimp only
    rw [if_pos ⟨hd, hmem⟩]
    rfl
  | failed hp _ => exact (Phase.state_of_recover ht hd ht').trans (if_pos hp)

theorem Act.halts {s s' : Scene κ} {p p' : Phase κ} {j marks : Journal κ}
    (h : Act s p p' s' marks) {id : ComponentId} {t t' : Slot κ} (ht : s.slot? id = some t)
    (hd : t.state.isDone = false) (ht' : s'.slot? id = some t') :
    t'.state.isDone = false ∨
      Halts id .detached ⟨p, none, s, j⟩ ⟨p', none, s', j ++ marks⟩ ∧ t'.state = .detached := by
  have hsame : t'.state = t.state → t'.state.isDone = false ∨
      Halts id .detached ⟨p, none, s, j⟩ ⟨p', none, s', j ++ marks⟩ ∧ t'.state = .detached :=
    fun heq => .inl (heq ▸ hd)
  cases h with
  | start =>
    let mark : Slot κ → Slot κ := fun slot => { slot with initialized := true }
    exact hsame (Scene.state_of_modifySlot (f := mark) (fun _ => rfl) (fun _ => rfl) ht ht')
  | @initialized x batch slot hslot hstate | @run x batch slot hslot hstate =>
    change (s.setState x _).slot? id = some t' at ht'
    rw [Scene.setState, Scene.slot?_modifySlot s x id _ fun _ => by rfl, ht] at ht'
    cases ht'
    dsimp only
    split
    · exact .inl rfl
    · exact .inl hd
  | round =>
    by_cases hmem : id ∈ s.evicted
    · have hhalts : Halts id .detached ⟨.settling, none, s, j⟩ _ := .evicted hmem ht
      exact .inr ⟨hhalts, hhalts.ends ht hd ht'⟩
    · rw [Scene.slot?_detachDoomed, ht] at ht'
      cases ht'
      exact hsame (by simp [hmem])
  | @drop slot doomed rest =>
    have hne : id ≠ slot.id := by
      rintro rfl
      rw [Scene.slot?_dropSlot_self] at ht'
      cases ht'
    rw [Scene.slot?_dropSlot s slot hne, ht] at ht'
    cases ht'
    exact .inl hd
  | @clear doomed =>
    rw [Scene.slot?_clear, ht] at ht'
    cases ht'
    exact .inl hd
  | _ => exact hsame (Scene.state_of_slots rfl ht ht')

theorem Step.halts {m m' : Moment κ} (hs : Step m m') {id : ComponentId} {t t' : Slot κ}
    (ht : m.scene.slot? id = some t) (hd : t.state.isDone = false)
    (ht' : m'.scene.slot? id = some t') (hd' : t'.state.isDone = true) :
    ∃ ending, Halts id ending m m' ∧ t'.state = ending.lifecycle := by
  have hnot : t'.state = t.state → ∃ ending, Halts id ending m m' ∧ t'.state = ending.lifecycle := by
    intro heq
    rw [heq, hd] at hd'
    cases hd'
  have hstop : (∃ ending, Halts id ending m m') →
      ∃ ending, Halts id ending m m' ∧ t'.state = ending.lifecycle := fun ⟨ending, h⟩ =>
    ⟨ending, h, h.ends ht hd ht'⟩
  cases hs with
  | onward ho =>
    cases ho with
    | @hosted s j c =>
      by_cases hc : ∃ ending, c.stop? = some (id, ending)
      · exact hstop ⟨_, .hosted hc.choose_spec ht⟩
      · exact hnot (Scene.state_of_apply (not_exists.1 hc) ht hd ht')
    | move => exact hnot (Scene.state_of_slots rfl ht ht')
    | @act p p' s s' j marks ha =>
      rcases ha.halts ht hd ht' with hlive | ⟨hhalts, hstate⟩
      · cases hlive.symm.trans hd'
      · exact ⟨.detached, hhalts, hstate⟩
    | @call p callback x s j slot hp hslot =>
      let take : Slot κ → Slot κ := fun slot => { slot with component := none }
      exact hnot (Scene.state_of_modifySlot (f := take) (fun _ => rfl) (fun _ => rfl) ht ht')
    | @ask p self s j r =>
      by_cases hr : ∃ ending, r.stop? self = some (id, ending)
      · exact hstop ⟨_, .asked hr.choose_spec ht⟩
      · exact hnot (Scene.state_of_answer (not_exists.1 hr) ht hd ht')
    | @back p self s j component =>
      let put : Slot κ → Slot κ := fun slot => { slot with component := some component }
      exact hnot (Scene.state_of_modifySlot (f := put) (fun _ => rfl) (fun _ => rfl) ht ht')
  | @fail p self s j component =>
    by_cases hp : p.attached? = some id
    · exact hstop ⟨_, .failed hp ht⟩
    · exact hnot ((Phase.state_of_recover ht hd ht').trans (if_neg hp))

def Unhalted (id : ComponentId) (moments : List (Moment κ)) : Prop :=
  moments.IsChain fun m m' => ∀ ending, ¬ Halts id ending m m'

/-- Among the stops of the component along these moments, the first is this one. -/
def FirstStop (id : ComponentId) (ending : Scene.Ending) (moments : List (Moment κ)) : Prop :=
  ∃ before m m' after, moments = before ++ m :: m' :: after ∧ Unhalted id (before ++ [m]) ∧
    Halts id ending m m'

theorem FirstStop.snoc {id : ComponentId} {ending : Scene.Ending} {moments : List (Moment κ)}
    (h : FirstStop id ending moments) (m : Moment κ) : FirstStop id ending (moments ++ [m]) := by
  obtain ⟨before, n, n', after, rfl, hbefore, hhalts⟩ := h
  refine ⟨before, n, n', after ++ [m], ?_, hbefore, hhalts⟩
  rw [List.append_assoc, List.cons_append, List.cons_append]

theorem Halts.noted {id : ComponentId} {ending : Scene.Ending} {m m' : Moment κ}
    (h : Halts id ending m m') :
    (m'.journal = m.journal ∧ ending = .detached) ∨
      ∃ mark, m'.journal = m.journal ++ [mark] ∧ mark.stop? = some (id, ending) := by
  cases h with
  | hosted hc _ => exact .inr ⟨_, rfl, hc⟩
  | asked hr _ => exact .inr ⟨_, rfl, hr⟩
  | evicted => exact .inl ⟨List.append_nil _, rfl⟩
  | @failed p self s j component t hp _ =>
    refine .inl ⟨?_, rfl⟩
    cases p with
    | initializing | joining => exact List.append_nil j
    | _ => cases hp

theorem Halts.unique {id : ComponentId} {a b : Scene.Ending} {m m' : Moment κ}
    (ha : Halts id a m m') (hb : Halts id b m m') : a = b := by
  rcases ha.noted with ⟨hj, rfl⟩ | ⟨mark, hj, hmark⟩ <;>
    rcases hb.noted with ⟨hj', rfl⟩ | ⟨mark', hj', hmark'⟩
  · rfl
  · exact absurd (List.self_eq_append_right.1 (hj.symm.trans hj')) (List.cons_ne_nil _ _)
  · exact absurd (List.self_eq_append_right.1 (hj'.symm.trans hj)) (List.cons_ne_nil _ _)
  · cases List.append_cancel_left (hj.symm.trans hj')
    cases hmark.symm.trans hmark'
    rfl

theorem Unhalted.not_halts {id : ComponentId} {ending : Scene.Ending} {m m' last : Moment κ}
    {before between after after' : List (Moment κ)}
    (h : Unhalted id (before ++ m :: between ++ [last]))
    (heq : m' :: after = between ++ last :: after') : ¬ Halts id ending m m' := by
  unfold Unhalted at h
  rw [List.append_assoc, List.cons_append] at h
  cases between with
  | nil =>
    cases heq
    exact (List.isChain_append_cons_cons.1 h).2.1 ending
  | cons x rest =>
    cases heq
    exact (List.isChain_append_cons_cons.1 h).2.1 ending

theorem FirstStop.unique {id : ComponentId} {a b : Scene.Ending} {moments : List (Moment κ)}
    (ha : FirstStop id a moments) (hb : FirstStop id b moments) : a = b := by
  obtain ⟨before, m, m', after, heq, hbefore, hhalts⟩ := ha
  obtain ⟨before', n, n', after', heq', hbefore', hhalts'⟩ := hb
  rcases List.append_eq_append_iff.1 (heq.symm.trans heq') with ⟨between, rfl, hrest⟩ | ⟨between, rfl, hrest⟩
  · cases between with
    | nil =>
      cases hrest
      exact hhalts.unique hhalts'
    | cons x between =>
      obtain ⟨rfl, htail⟩ := List.cons.inj hrest
      exact absurd hhalts (hbefore'.not_halts htail)
  · cases between with
    | nil =>
      cases hrest
      exact hhalts.unique hhalts'
    | cons x between =>
      obtain ⟨rfl, htail⟩ := List.cons.inj hrest
      exact absurd hhalts' (hbefore.not_halts htail)

/-- Who lives has not been stopped, and who has ended has come to the end of the first stop. -/
structure Moment.Ended (m : Moment κ) (past : List (Moment κ)) (id : ComponentId) : Prop where
  alive : (∀ a, m.scene.lifecycle? id = some a → a.isDone = false) → Unhalted id (past ++ [m])
  ended : ∀ ending, m.scene.lifecycle? id = some ending.lifecycle →
    FirstStop id ending (past ++ [m])

theorem Step.slot_of_slot? {m m' : Moment κ} (hs : Step m m') {id : ComponentId} {t' : Slot κ}
    (ht' : m'.scene.slot? id = some t') : t'.Fresh ∨ ∃ t, m.scene.slot? id = some t := by
  cases ht : m.scene.slot? id with
  | some t => exact .inr ⟨t, rfl⟩
  | none =>
    rcases hs.advances with hadv | ⟨slot, _, heq⟩
    · exact .inl (hadv.fresh id t' ht ht').2
    · rw [heq] at ht'
      rcases Scene.Continues.dropSlot slot id t' ht' with hfresh | ⟨t, hsome, _⟩
      · exact .inl hfresh
      · cases ht.symm.trans hsome

namespace Moment.Ended

variable {past : List (Moment κ)} {m m' : Moment κ} {id : ComponentId}

theorem start : (⟨.idle, none, {}, []⟩ : Moment κ).Ended [] id := by
  refine ⟨fun _ => .singleton _, fun ending h => ?_⟩
  rcases Scene.lifecycle?_cases h with ⟨t, ht, _⟩ | ⟨_, _, heq⟩
  · cases ht
  · cases ending <;> cases heq

theorem step (h : m.Ended past id) (hm : m.Sound) (hs : Step m m') : m'.Ended (past ++ [m]) id := by
  have hforward := hs.forward hm
  refine ⟨fun halive => ?_, fun ending hend => ?_⟩
  · have hbefore : ∀ a, m.scene.lifecycle? id = some a → a.isDone = false := by
      intro a ha
      obtain ⟨b, hb, hab⟩ := hforward id a ha
      cases hd : a.isDone with
      | false => rfl
      | true => exact (hab.isDone hd).symm.trans (halive b hb)
    refine List.isChain_append.2 ⟨h.alive hbefore, .singleton _, fun x hx y hy ending hh => ?_⟩
    rw [List.getLast?_append, List.getLast?_singleton, Option.some_or] at hx
    cases hx
    cases hy
    obtain ⟨t, ht⟩ := hh.slot
    have hlife := Scene.lifecycle?_of_slot ht
    obtain ⟨b, hb, _⟩ := hforward id _ hlife
    rcases Scene.lifecycle?_cases hb with ⟨t', ht', rfl⟩ | ⟨_, _, rfl⟩
    · have hdone := Lifecycle.ending_isDone ending
      rw [← hh.ends ht (hbefore _ hlife) ht', halive _ hb] at hdone
      cases hdone
    · cases halive _ hb
  · rcases Scene.lifecycle?_cases hend with ⟨t', ht', hstate⟩ | ⟨_, _, heq⟩
    · rcases hs.slot_of_slot? ht' with hfresh | ⟨t, ht⟩
      · rw [hfresh.state] at hstate
        cases ending <;> cases hstate
      · have hlife := Scene.lifecycle?_of_slot ht
        cases hd : t.state.isDone with
        | true =>
          obtain ⟨b, hb, hab⟩ := hforward id _ hlife
          cases hend.symm.trans hb
          have hsame := hab.eq_of_isDone hd (by cases ending <;> nofun)
          exact (h.ended ending (hsame ▸ hlife)).snoc m'
        | false =>
          have hdone : t'.state.isDone = true := hstate ▸ Lifecycle.ending_isDone ending
          obtain ⟨e, hh, he⟩ := hs.halts ht hd ht' hdone
          cases Scene.Ending.lifecycle_inj (he.symm.trans hstate)
          refine ⟨past, m, m', [], List.append_assoc past [m] [m'], h.alive fun a ha => ?_, hh⟩
          cases hlife.symm.trans ha
          exact hd
    · cases ending <;> cases heq

end Moment.Ended

theorem Course.ended {past : List (Moment κ)} {m : Moment κ} (h : Course past m) (id : ComponentId) :
    m.Ended past id := by
  induction h with
  | start => exact .start
  | step h hs ih => exact ih.step h.sound hs

end FrameChain
