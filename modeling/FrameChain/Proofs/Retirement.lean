import FrameChain.Proofs.Moment.Timed
import Mathlib.Data.List.Count

set_option autoImplicit false

/-! When a hook of retirement fails the slot stays, and a later update retires the component once more,
from the start. So the hooks are called in tries, of which all but the last have failed. -/
namespace FrameChain

variable {κ ω : Type}

inductive Hook where
  /-- `finish` or `detach` was called. -/
  | ended
  | removed
  /-- The hook that was called last has failed. -/
  | failed
deriving DecidableEq, Repr

def Callback.hook? : Callback → Option Hook
  | finish | detach => some .ended
  | remove => some .removed
  | _ => none

def Mark.track (id : ComponentId) (σ : Option ComponentId × List Hook) :
    Mark κ → Option ComponentId × List Hook
  | called callback self _ =>
      (some self.component, if self.component = id then σ.2 ++ callback.hook?.toList else σ.2)
  | forgotten _ => (σ.1, if σ.1 = some id then σ.2 ++ [.failed] else σ.2)
  | _ => σ

def Journal.track (j : Journal κ) (id : ComponentId) : Option ComponentId × List Hook :=
  j.foldl (Mark.track id) (none, [])

def Journal.hooks (j : Journal κ) (id : ComponentId) : List Hook := (j.track id).2

theorem Journal.track_append (j marks : Journal κ) (id : ComponentId) :
    (j ++ marks : Journal κ).track id = marks.foldl (Mark.track id) (j.track id) :=
  List.foldl_append

/-- A try that has failed, at the first or at the second hook. -/
def Hook.Failing (hooks : List Hook) : Prop :=
  hooks = [ended, failed] ∨ hooks = [ended, removed, failed]

def Moment.trying (m : Moment κ) (id : ComponentId) : List Hook :=
  match m.phase with
  | .ending slot _ _ => if slot.id = id ∧ m.calling.isSome = true then [.ended] else []
  | .removing slot _ _ =>
      if slot.id = id then .ended :: (if m.calling.isSome then [.removed] else []) else []
  | .dropping slot _ _ => if slot.id = id ∧ slot.initialized = true then [.ended, .removed] else []
  | _ => []

/-- Some tries have failed, and the last one has come to this. -/
def Hook.Tried (hooks last : List Hook) : Prop :=
  ∃ tries : List (List Hook), (∀ t ∈ tries, Failing t) ∧ hooks = tries.flatten ++ last

structure Moment.Retried (m : Moment κ) (id : ComponentId) : Prop where
  current : ∀ self, m.calling = some self → (m.journal.track id).1 = some self.component
  present : ∀ t, m.scene.slot? id = some t → Hook.Tried (m.journal.hooks id) (m.trying id)
  untouched : m.scene.Untouched id → m.journal.hooks id = []
  gone : m.scene.slot? id = none → m.scene.wasIssued id = true →
    m.journal.hooks id = [] ∨ Hook.Tried (m.journal.hooks id) [.ended, .removed]

namespace Hook

theorem Tried.snoc {hooks last added : List Hook} (h : Tried hooks last) :
    Tried (hooks ++ added) (last ++ added) := by
  obtain ⟨tries, htries, heq⟩ := h
  exact ⟨tries, htries, by rw [heq, List.append_assoc]⟩

theorem Tried.close {hooks last : List Hook} (h : Tried hooks last)
    (hlast : Failing (last ++ [.failed])) : Tried (hooks ++ [.failed]) [] := by
  obtain ⟨tries, htries, heq⟩ := h
  refine ⟨tries ++ [last ++ [.failed]], fun t ht => ?_, ?_⟩
  · rcases List.mem_append.1 ht with ht | ht
    · exact htries t ht
    · rw [List.mem_singleton.1 ht]
      exact hlast
  · rw [heq, List.flatten_append, List.flatten_singleton, List.append_nil, List.append_assoc]

theorem tried_nil : Tried [] [] := ⟨[], fun _ h => absurd h List.not_mem_nil, rfl⟩

end Hook

namespace Moment.Retried

variable {m m' : Moment κ} {id : ComponentId} {added : List Hook}

theorem start : (⟨.idle, none, {}, []⟩ : Moment κ).Retried id :=
  ⟨nofun, nofun, fun _ => rfl, fun _ _ => .inl rfl⟩

theorem trying_of_fresh (hr : m.phase.Retires m.scene) {t : Slot κ}
    (ht : m.scene.slot? id = some t) (hfresh : t.Fresh) : m.trying id = [] := by
  have hother : ∀ slot, m.scene.Holds slot → slot.id ≠ id := by
    rintro slot ⟨u, hu, _, _, hstopped⟩ rfl
    cases ht.symm.trans hu
    rw [hfresh.state] at hstopped
    rcases hstopped with h | h <;> cases h
  unfold trying
  revert hr
  cases m.phase with
  | ending slot doomed rest => exact fun hr => if_neg fun h => hother slot hr.1 h.1
  | removing slot doomed rest => exact fun hr => if_neg (hother slot hr.1)
  | dropping slot doomed rest => exact fun hr => if_neg fun h => hother slot hr h.1
  | _ => exact fun _ => rfl

theorem extend (h : m.Retried id) (hm : m.Sound) (hadv : m.scene.Advances m'.scene)
    (hcurrent : ∀ self, m'.calling = some self → (m'.journal.track id).1 = some self.component)
    (hhooks : m'.journal.hooks id = m.journal.hooks id ++ added)
    (hadded : added ≠ [] → ∃ t, m.scene.slot? id = some t ∧ t.initialized = true)
    (hpresent : ∀ t, m.scene.slot? id = some t → Hook.Tried (m'.journal.hooks id) (m'.trying id))
    (hr : m'.phase.Retires m'.scene) : m'.Retried id := by
  have huntouched : m.scene.Untouched id → m'.journal.hooks id = [] := by
    intro hu
    have hnothing : added = [] := by
      by_contra hne
      obtain ⟨t, ht, hi⟩ := hadded hne
      rcases hu with hissued | ⟨u, hu, hui⟩
      · cases hissued.symm.trans (Scene.wasIssued_of_slot hm.scene.registered ht)
      · cases ht.symm.trans hu
        cases hi.symm.trans hui
    rw [hhooks, h.untouched hu, hnothing, List.append_nil]
  refine ⟨hcurrent, fun t' ht' => ?_, fun hu => huntouched (hadv.untouched hu), fun hn hi => ?_⟩
  · cases ht : m.scene.slot? id with
    | some t => exact hpresent t ht
    | none =>
      obtain ⟨hlt, hfresh⟩ := hadv.fresh id t' ht ht'
      have hold : m.scene.wasIssued id = false :=
        Bool.eq_false_iff.2 fun hold => Nat.not_lt.2 (Scene.wasIssued_iff.1 hold).2 hlt
      rw [huntouched (.inl hold), trying_of_fresh hr ht' hfresh]
      exact Hook.tried_nil
  · obtain ⟨hslot, hissued⟩ := (hadv.gone_iff id).1 ⟨hn, hi⟩
    have hnothing : added = [] := by
      by_contra hne
      obtain ⟨t, ht, _⟩ := hadded hne
      cases hslot.symm.trans ht
    rw [hhooks, hnothing, List.append_nil]
    exact h.gone hslot hissued

theorem grow (h : m.Retried id) (hm : m.Sound) (hadv : m.scene.Advances m'.scene)
    (hr : m'.phase.Retires m'.scene)
    (hcurrent : ∀ self, m'.calling = some self → (m'.journal.track id).1 = some self.component)
    (hhooks : m'.journal.hooks id = m.journal.hooks id ++ added)
    (hadded : added ≠ [] → ∃ t, m.scene.slot? id = some t ∧ t.initialized = true)
    (htrying : m'.trying id = m.trying id ++ added) : m'.Retried id := by
  refine h.extend hm hadv hcurrent hhooks hadded (fun t ht => ?_) hr
  rw [hhooks, htrying]
  exact (h.present t ht).snoc

theorem quiet (h : m.Retried id) (hm : m.Sound) (hadv : m.scene.Advances m'.scene)
    (hr : m'.phase.Retires m'.scene)
    (hcurrent : ∀ self, m'.calling = some self → (m'.journal.track id).1 = some self.component)
    (hhooks : m'.journal.hooks id = m.journal.hooks id) (htrying : m'.trying id = m.trying id) :
    m'.Retried id :=
  h.grow hm hadv hr hcurrent (hhooks.trans (List.append_nil _).symm) (fun hne => absurd rfl hne)
    (htrying.trans (List.append_nil _).symm)

theorem move {s : Scene κ} {p p' : Phase κ} {j : Journal κ}
    (h : (⟨p, none, s, j⟩ : Moment κ).Retried id) (hm : (⟨p, none, s, j⟩ : Moment κ).Sound)
    (hr : p'.Retires s) (hmove : Move s p p') : (⟨p', none, s, j⟩ : Moment κ).Retried id := by
  refine h.quiet hm (.of_slots rfl rfl) hr nofun rfl ?_
  cases hmove with
  | unseen hslot hi => exact if_neg fun hseen => by cases hseen.2.symm.trans hi
  | endHook => exact if_neg fun hcalled => by cases hcalled.2
  | _ => rfl

theorem drop {s : Scene κ} {j : Journal κ} {slot : Slot κ} {doomed : List EntityId}
    {rest : List ComponentId} (h : (⟨.dropping slot doomed rest, none, s, j⟩ : Moment κ).Retried id)
    (hm : (⟨.dropping slot doomed rest, none, s, j⟩ : Moment κ).Sound) (hr : s.Holds slot) :
    (⟨.retiring doomed rest, none, s.dropSlot slot, j⟩ : Moment κ).Retried id := by
  by_cases hid : slot.id = id
  · subst hid
    obtain ⟨t, ht, hinit, _⟩ := hr
    have hissued := Scene.wasIssued_of_slot hm.scene.registered ht
    refine ⟨nofun, fun t' ht' => ?_, fun hu => ?_, fun _ _ => ?_⟩
    · cases (s.slot?_dropSlot_self slot).symm.trans ht'
    · rcases hu with hi | ⟨t', ht', _⟩
      · cases hi.symm.trans hissued
      · cases (s.slot?_dropSlot_self slot).symm.trans ht'
    · cases hseen : slot.initialized with
      | true =>
        have htried := h.present t ht
        simp only [trying, hseen, and_self, if_true] at htried
        exact .inr htried
      | false => exact .inl (h.untouched (.inr ⟨t, ht, hinit.trans hseen⟩))
  · have hslot := Scene.slot?_dropSlot s slot (Ne.symm hid)
    refine ⟨nofun, fun t ht => ?_, fun hu => h.untouched ?_, fun hn => h.gone (hslot ▸ hn)⟩
    · have htried := h.present t (hslot ▸ ht)
      simp only [trying, hid, false_and, if_false] at htried
      exact htried
    · rcases hu with hi | ⟨t, ht, hti⟩
      · exact .inl hi
      · exact .inr ⟨t, hslot ▸ ht, hti⟩

theorem act {s s' : Scene κ} {p p' : Phase κ} {j marks : Journal κ}
    (h : (⟨p, none, s, j⟩ : Moment κ).Retried id) (hm : (⟨p, none, s, j⟩ : Moment κ).Sound)
    (hr : p.Retires s) (ha : Act s p p' s' marks) :
    (⟨p', none, s', j ++ marks⟩ : Moment κ).Retried id := by
  have hr' : p'.Retires s' := .act ha
  have hhooks : (j ++ marks : Journal κ).hooks id = j.hooks id := by
    rw [Journal.hooks, Journal.track_append]
    cases ha <;> rfl
  have hadv := ha.advances
  cases ha with
  | drop =>
    rw [List.append_nil]
    exact h.drop hm hr
  | _ => exact h.quiet hm (hadv.resolve_right fun ⟨_, hp, _⟩ => nomatch hp) hr' nofun hhooks rfl

theorem call {p : Phase κ} {callback : Callback} {x : ComponentId} {s : Scene κ} {j : Journal κ}
    {slot : Slot κ} (h : (⟨p, none, s, j⟩ : Moment κ).Retried id)
    (hm : (⟨p, none, s, j⟩ : Moment κ).Sound) (hr : p.Retires s)
    (hp : p.callee = some (callback, x)) :
    (⟨p, some ⟨slot.owner, x⟩, s.takeOut x,
      j ++ [.called callback ⟨slot.owner, x⟩ (s.takeOut x)]⟩ : Moment κ).Retried id := by
  have hadv := s.advances_takeOut x
  have htrack : (j ++ [.called callback ⟨slot.owner, x⟩ (s.takeOut x)] : Journal κ).track id =
      (some x, if x = id then j.hooks id ++ callback.hook?.toList else j.hooks id) := by
    rw [Journal.track_append]
    rfl
  have hmarked : callback.hook? ≠ none → ∃ t, s.slot? x = some t ∧ t.initialized = true := by
    intro hhook
    cases p with
    | ending y doomed rest | removing y doomed rest =>
      cases hp
      obtain ⟨⟨t, ht, hinit, _⟩, hseen⟩ := hr
      exact ⟨t, ht, hinit.trans hseen⟩
    | initializing | joining | reaching | ticking =>
      cases hp
      exact absurd rfl hhook
    | _ => cases hp
  have hhooks : (j ++ [.called callback ⟨slot.owner, x⟩ (s.takeOut x)] : Journal κ).hooks id =
      j.hooks id ++ if x = id then callback.hook?.toList else [] := by
    rw [Journal.hooks, htrack]
    dsimp only
    split
    · rfl
    · exact (List.append_nil _).symm
  refine h.grow hm hadv (hr.continues hadv (.takeOut x)) (fun self hself => ?_) hhooks
    (fun hne => ?_) ?_
  · cases hself
    rw [htrack]
  · split at hne
    · rename_i hid
      subst hid
      exact hmarked fun hnone => hne (by rw [hnone]; rfl)
    · exact absurd rfl hne
  · cases p with
    | ending y doomed rest =>
      cases hp
      by_cases hid : y.id = id
      · split <;> simp [trying, hid, Callback.hook?]
      · simp [trying, hid]
    | removing y doomed rest =>
      cases hp
      by_cases hid : y.id = id <;> simp [trying, hid, Callback.hook?]
    | initializing | joining | reaching | ticking =>
      cases hp
      exact (ite_self _).symm
    | _ => cases hp

theorem fail_hook {p : Phase κ} {self : Caller} {s s' : Scene κ} {j : Journal κ}
    {doomed : List EntityId} (h : (⟨p, some self, s, j⟩ : Moment κ).Retried id)
    (hm : (⟨p, some self, s, j⟩ : Moment κ).Sound) (hadv : s.Advances s')
    (hmarked : ∃ t, s.slot? self.component = some t ∧ t.initialized = true)
    (hself : self.component = id →
      Hook.Failing ((⟨p, some self, s, j⟩ : Moment κ).trying id ++ [.failed]))
    (hother : self.component ≠ id → (⟨p, some self, s, j⟩ : Moment κ).trying id = []) :
    (⟨.idle, none, s', j ++ [.forgotten doomed]⟩ : Moment κ).Retried id := by
  have hcurrent : (j.track id).1 = some self.component := h.current self rfl
  have hhooks : (j ++ [.forgotten doomed] : Journal κ).hooks id =
      j.hooks id ++ if self.component = id then [.failed] else [] := by
    rw [Journal.hooks, Journal.track_append]
    simp only [List.foldl_cons, List.foldl_nil, Mark.track, hcurrent, Option.some.injEq]
    split
    · rfl
    · exact (List.append_nil _).symm
  refine h.extend hm hadv nofun hhooks (fun hne => ?_) (fun t ht => ?_) trivial
  · split at hne
    · rename_i hid
      exact hid ▸ hmarked
    · exact absurd rfl hne
  · rw [hhooks]
    by_cases hid : self.component = id
    · rw [if_pos hid]
      exact (h.present t ht).close (hself hid)
    · rw [if_neg hid, List.append_nil]
      have htried := h.present t ht
      rwa [hother hid] at htried

section

variable [Named κ]

theorem fail {p : Phase κ} {self : Caller} {s : Scene κ} {j : Journal κ} (component : κ)
    (h : (⟨p, some self, s, j⟩ : Moment κ).Retried id)
    (hm : (⟨p, some self, s, j⟩ : Moment κ).Sound) (hr : p.Retires s) :
    (⟨.idle, none, p.recover (s.putBack self.component component), j ++ p.losses⟩ :
      Moment κ).Retried id := by
  have hadv := p.advances_fail s self.component component
  obtain ⟨callback, hcallee⟩ := hm.due self rfl
  cases p with
  | ending slot doomed rest =>
    obtain ⟨⟨t, ht, hinit, _⟩, hseen⟩ := hr
    have hslot : slot.id = self.component := (Prod.mk.inj (Option.some.inj hcallee)).2
    refine h.fail_hook hm hadv ⟨t, hslot ▸ ht, hinit.trans hseen⟩ (fun hid => .inl ?_) fun hid => ?_
    · simp [trying, hslot, hid]
    · simp [trying, hslot, hid]
  | removing slot doomed rest =>
    obtain ⟨⟨t, ht, hinit, _⟩, hseen⟩ := hr
    have hslot : slot.id = self.component := (Prod.mk.inj (Option.some.inj hcallee)).2
    refine h.fail_hook hm hadv ⟨t, hslot ▸ ht, hinit.trans hseen⟩ (fun hid => .inr ?_) fun hid => ?_
    · simp [trying, hslot, hid]
    · simp [trying, hslot, hid]
  | initializing | joining | reaching | ticking =>
    exact h.quiet hm hadv trivial nofun (congrArg (Journal.hooks · id) (List.append_nil j)) rfl
  | _ => cases hcallee

theorem step (h : m.Retried id) (hm : m.Sound) (hr : m.phase.Retires m.scene) (hs : Step m m') :
    m'.Retried id := by
  have hr' := hm.retires_step hr hs
  cases hs with
  | onward ho =>
    cases ho with
    | @hosted s j c =>
      refine h.quiet hm (Scene.change_apply s c).advances hr' nofun ?_ rfl
      exact congrArg Prod.snd (Journal.track_append _ _ _)
    | move hmove => exact h.move hm hr' hmove
    | act ha => exact h.act hm hr ha
    | call hp hslot => exact h.call hm hr hp
    | @ask p self s j r =>
      have htrack : ∀ mark : Mark κ, (∀ σ, mark.track id σ = σ) →
          (j ++ [mark] : Journal κ).track id = j.track id := fun mark hmark =>
        (Journal.track_append _ _ _).trans (hmark _)
      refine h.quiet hm (Scene.change_answer s self r).advances hr' (fun self' hself => ?_) ?_ rfl
      · exact (congrArg Prod.fst (htrack _ fun _ => rfl)).trans (h.current self' hself)
      · exact congrArg Prod.snd (htrack _ fun _ => rfl)
    | @back p self s j component =>
      refine h.quiet hm (s.advances_putBack _ component) hr' nofun rfl ?_
      cases p with
      | ending slot doomed rest => simp [trying, Phase.next]
      | removing slot doomed rest => simp [trying, Phase.next, hr.2]
      | _ => rfl
  | fail component => exact h.fail component hm hr

end

end Moment.Retried

theorem Course.retried [Named κ] {past : List (Moment κ)} {m : Moment κ} (h : Course past m)
    (id : ComponentId) : m.Retried id := by
  induction h with
  | start => exact .start
  | step h hs ih => exact ih.step h.sound h.retires hs

namespace Hook

theorem count_flatten {tries : List (List Hook)} (h : ∀ t ∈ tries, Failing t) :
    tries.flatten.count .ended = tries.flatten.count .failed ∧
      tries.flatten.count .removed ≤ tries.flatten.count .failed := by
  induction tries with
  | nil => exact ⟨rfl, Nat.le_refl _⟩
  | cons first rest ih =>
    obtain ⟨hended, hremoved⟩ := ih fun t ht => h t (List.mem_cons_of_mem _ ht)
    have hfirst : first.count .ended = first.count .failed ∧
        first.count .removed ≤ first.count .failed := by
      rcases h first List.mem_cons_self with rfl | rfl <;> decide
    simp only [List.flatten_cons, List.count_append]
    omega

/-- What tries come to, as far as they have come. -/
def Last (last : List Hook) : Prop :=
  last = [] ∨ last = [ended] ∨ last = [ended, removed]

theorem Tried.count {hooks last : List Hook} (h : Tried hooks last) (hlast : Last last) :
    hooks.count .ended ≤ hooks.count .failed + 1 ∧
      hooks.count .removed ≤ hooks.count .failed + 1 := by
  obtain ⟨tries, htries, rfl⟩ := h
  obtain ⟨hended, hremoved⟩ := count_flatten htries
  simp only [List.count_append]
  rcases hlast with rfl | rfl | rfl <;> simp <;> omega

end Hook

theorem Moment.last_trying (m : Moment κ) (id : ComponentId) : Hook.Last (m.trying id) := by
  unfold trying Hook.Last
  cases m.phase with
  | ending slot doomed rest => dsimp only; split <;> simp
  | removing slot doomed rest => dsimp only; split <;> [split <;> simp; simp]
  | dropping slot doomed rest => dsimp only; split <;> simp
  | _ => exact .inl rfl

theorem Moment.Retried.tried {m : Moment κ} {id : ComponentId} (h : m.Retried id) :
    ∃ last, Hook.Tried (m.journal.hooks id) last ∧ Hook.Last last ∧
      (m.phase = .idle →
        (∀ t, m.scene.slot? id = some t → last = []) ∧
        (m.scene.slot? id = none → m.journal.hooks id = [] ∨ last = [.ended, .removed])) := by
  cases hs : m.scene.slot? id with
  | some t =>
    refine ⟨_, h.present t hs, m.last_trying id, fun hidle => ⟨fun _ _ => ?_, nofun⟩⟩
    rw [trying, hidle]
  | none =>
    have hgone : m.journal.hooks id = [] ∨ Hook.Tried (m.journal.hooks id) [.ended, .removed] := by
      cases hi : m.scene.wasIssued id with
      | false => exact .inl (h.untouched (.inl hi))
      | true => exact h.gone hs hi
    rcases hgone with heq | htried
    · exact ⟨[], heq ▸ Hook.tried_nil, .inl rfl, fun _ => ⟨fun _ _ => rfl, fun _ => .inl heq⟩⟩
    · exact ⟨_, htried, .inr (.inr rfl), fun _ => ⟨nofun, fun _ => .inr rfl⟩⟩

variable [Named κ]

/-- The hooks of a component are called in tries that end with the failure of one of them, but for a last
one. When a history has ended well there is a last try exactly for whoever is gone and has heard of it,
and both hooks were called in it. So without failures of its own a component hears of its end once. -/
theorem retirement_history (b : Behaviour κ ω) (w : ω) (ops : List (HostOp κ ω)) :
    let s := (ending b w ops).2.scene
    let j := (recording b w ops).2.world.2
    ((recording b w ops).1, (recording b w ops).2.erase) = ending b w ops ∧
    ∀ id,
      (∃ last, Hook.Tried (j.hooks id) last ∧ Hook.Last last ∧
        ((ending b w ops).1 = .ok () →
          (∀ t, s.slot? id = some t → last = []) ∧
          (s.slot? id = none → j.hooks id = [] ∨ last = [.ended, .removed]))) ∧
      (j.hooks id).count .ended ≤ (j.hooks id).count .failed + 1 ∧
      (j.hooks id).count .removed ≤ (j.hooks id).count .failed + 1 := by
  intro s j
  refine ⟨erase_recording b w ops, fun id => ?_⟩
  obtain ⟨past, final, hpassed⟩ := exists_passed b w ops
  obtain ⟨last, htried, hlast, hidle⟩ := (hpassed.course.retried id).tried
  rw [hpassed.journal] at htried hidle
  rw [hpassed.scene] at hidle
  exact ⟨⟨last, htried, hlast, fun hok => hidle (hpassed.idle hok).1⟩, htried.count hlast⟩

def reluctant : Behaviour Probe Nat := fun callback _ probe =>
  match callback with
  | .finish =>
      .consult fun calls =>
        .store (calls + 1) (.done (if calls = 0 then .error (.other "no") else .ok (), probe))
  | _ => .done (.ok (), probe)

/-- Two probes are finished; the hook of the first fails in one update and is called again in the next. -/
def farewell : List (HostOp Probe Nat) :=
  [.call (.addEntity "hall"), .call (.addComponent ⟨1⟩ {}), .call (.addComponent ⟨1⟩ {}),
    .update 1 0 0, .call (.stop ⟨1⟩ .finished), .call (.stop ⟨2⟩ .finished), .update 1 0 0,
    .update 1 0 0]

/-- The first probe hears of its end once more than it has failed, the second one once. -/
theorem retirement_history_farewell :
    let j := (recording reluctant 0 farewell).2.world.2
    ((j.hooks ⟨1⟩).count .ended ≤ 2 ∧ Hook.Tried (j.hooks ⟨1⟩) [.ended, .removed]) ∧
      (j.hooks ⟨2⟩).count .ended ≤ 1 := by
  intro j
  obtain ⟨_, hall⟩ := retirement_history reluctant 0 farewell
  obtain ⟨⟨last, htried, _, hend⟩, hcount, _⟩ := hall ⟨1⟩
  have hok : (ending reluctant 0 farewell).1 = .ok () := by decide +kernel
  have hgone : ((ending reluctant 0 farewell).2.scene.slot? ⟨1⟩).isNone = true := by decide +kernel
  have hheard : j.hooks ⟨1⟩ ≠ [] := by decide +kernel
  have hlast : last = [.ended, .removed] :=
    ((hend hok).2 (Option.isNone_iff_eq_none.1 hgone)).resolve_left hheard
  have hfailed : (j.hooks ⟨1⟩).count .failed = 1 := by decide +kernel
  have hquiet : (j.hooks ⟨2⟩).count .failed = 0 := by decide +kernel
  have hother := (hall ⟨2⟩).2.1
  rw [hfailed] at hcount
  rw [hquiet] at hother
  exact ⟨⟨hcount, hlast ▸ htried⟩, hother⟩

/-- `finish` is called twice on one component: its failure has it called again. -/
theorem finish_called_again :
    (ending reluctant 0 farewell).1 = .ok () ∧
      ((recording reluctant 0 farewell).2.world.2.hooks ⟨1⟩).count .ended = 2 := by
  decide +kernel

end FrameChain
