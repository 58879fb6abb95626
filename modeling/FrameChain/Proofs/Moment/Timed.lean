import FrameChain.Proofs.Moment.Retiring

set_option autoImplicit false

namespace FrameChain

variable {κ : Type}

namespace Callback

def Timely : Callback → Lifecycle → Prop
  | init, a => a = .new
  | attach, a => a = .initialized
  | update _ _, a | message _, a => a = .running
  | finish, a => a = .finished
  | detach, a => a = .detached
  | remove, a => a = .finished ∨ a = .detached

def isFarewell : Callback → Bool
  | finish | detach | remove => true
  | _ => false

end Callback

namespace Journal

structure Ordered (j : Journal κ) : Prop where
  timely : ∀ callback self s, .called callback self s ∈ j →
    ∃ a, s.lifecycle? self.component = some a ∧ callback.Timely a
  heralded : ∀ before callback self s after, j = before ++ .called callback self s :: after →
    callback.isFarewell = true → ∃ s', .called .init self s' ∈ before

def Heralds (before : Journal κ) : Mark κ → Prop
  | .called callback self _ => callback.isFarewell = true → ∃ s', .called .init self s' ∈ before
  | _ => True

theorem each_heralds {j : Journal κ} : j.Each Heralds ↔
    ∀ before callback self s after, j = before ++ .called callback self s :: after →
      callback.isFarewell = true → ∃ s', .called .init self s' ∈ before := by
  refine ⟨fun h before callback self s after heq => h before _ after heq,
    fun h before mark after heq => ?_⟩
  cases mark with
  | called callback self s => exact h before callback self s after heq
  | _ => trivial

namespace Ordered

theorem quiet {j marks : Journal κ} (h : j.Ordered)
    (hm : ∀ callback self s, .called callback self s ∉ marks) :
    (j ++ marks : Journal κ).Ordered := by
  refine ⟨fun callback self s hmem => ?_, each_heralds.mp ((each_heralds.mpr h.heralded).append ?_)⟩
  · rcases List.mem_append.1 hmem with hmem | hmem
    · exact h.timely callback self s hmem
    · exact absurd hmem (hm _ _ _)
  · intro mark hmem before
    cases mark with
    | called callback self s => exact absurd hmem (hm callback self s)
    | _ => trivial

theorem call {j : Journal κ} (h : j.Ordered) {callback : Callback} {self : Caller} {s : Scene κ}
    {a : Lifecycle} (ha : s.lifecycle? self.component = some a) (ht : callback.Timely a)
    (hinit : callback.isFarewell = true → ∃ s', .called .init self s' ∈ j) :
    (j ++ [.called callback self s] : Journal κ).Ordered := by
  refine ⟨fun callback' self' s' hmem => ?_,
    each_heralds.mp ((each_heralds.mpr h.heralded).concat hinit)⟩
  rcases List.mem_append.1 hmem with hmem | hmem
  · exact h.timely callback' self' s' hmem
  · cases List.mem_singleton.1 hmem
    exact ⟨a, ha, ht⟩

end Ordered

end Journal

def Scene.Unmarked (s s' : Scene κ) : Prop :=
  ∀ id t', s'.slot? id = some t' → t'.initialized = true →
    ∃ t, s.slot? id = some t ∧ t.initialized = true ∧ t.owner = t'.owner

theorem Scene.Continues.unmarked {s s' : Scene κ} (h : s.Continues s') : s.Unmarked s' := by
  intro id t' ht' hi
  rcases h id t' ht' with hfresh | ⟨t, ht, hcont⟩
  · cases hi.symm.trans hfresh.initialized
  · exact ⟨t, ht, hcont.initialized.symm.trans hi, hcont.owner.symm⟩

theorem Scene.unmarked_setState (s : Scene κ) (id : ComponentId) (state : Lifecycle) :
    s.Unmarked (s.setState id state) := by
  intro x t' ht' hi
  rw [setState, slot?_modifySlot s id x _ fun _ => by rfl] at ht'
  obtain ⟨t, ht, rfl⟩ := Option.map_eq_some_iff.1 ht'
  split at hi <;> exact ⟨t, ht, hi, by split <;> rfl⟩

theorem Act.unmarked {s s' : Scene κ} {p p' : Phase κ} {marks : Journal κ} (h : Act s p p' s' marks) :
    s.Unmarked s' ∨ ∃ id batch, p = .attaching (id :: batch) ∧ p' = .initializing id batch ∧
      s' = s.modifySlot id fun slot => { slot with initialized := true } := by
  cases h with
  | start => exact .inr ⟨_, _, rfl, rfl, rfl⟩
  | initialized | run => exact .inl (s.unmarked_setState _ _)
  | round => exact .inl Scene.Continues.detachDoomed.unmarked
  | drop => exact .inl (Scene.Continues.dropSlot _).unmarked
  | clear => exact .inl (Scene.Continues.clear _).unmarked
  | _ => exact .inl (Scene.Continues.of_slots rfl).unmarked

theorem Scene.slot?_of_marked {s : Scene κ} {id x : ComponentId} {t' : Slot κ}
    (ht' : (s.modifySlot id fun slot => { slot with initialized := true }).slot? x = some t') :
    x = id ∨ s.slot? x = some t' := by
  by_cases hx : x = id
  · exact .inl hx
  · let mark : Slot κ → Slot κ := fun slot => { slot with initialized := true }
    rw [slot?_modifySlot s id x mark fun _ => rfl] at ht'
    obtain ⟨t, ht, rfl⟩ := Option.map_eq_some_iff.1 ht'
    rw [slot?_id ht, if_neg (by simpa using hx)]
    exact .inr ht

structure Moment.Timed (m : Moment κ) : Prop where
  due : m.calling = none → ∀ callback id, m.phase.callee = some (callback, id) →
    ∃ t, m.scene.slot? id = some t ∧ callback.Timely t.state ∧
      (callback.isFarewell = true → t.initialized = true)
  seen : ∀ id t, m.scene.slot? id = some t → t.initialized = true →
    (∃ s, .called .init ⟨t.owner, id⟩ s ∈ m.journal) ∨
      m.calling = none ∧ m.phase.callee = some (.init, id)
  ordered : m.journal.Ordered

namespace Moment.Timed

theorem due_none {p : Phase κ} {s : Scene κ} (hp : p.callee = none) :
    ∀ callback id, p.callee = some (callback, id) →
      ∃ t, s.slot? id = some t ∧ callback.Timely t.state ∧
        (callback.isFarewell = true → t.initialized = true) := by
  intro callback id h
  rw [hp] at h
  cases h

theorem due_some {p : Phase κ} {s : Scene κ} {c : Callback} {x : ComponentId}
    (hp : p.callee = some (c, x)) {t : Slot κ} (ht : s.slot? x = some t) (htimely : c.Timely t.state)
    (hinit : c.isFarewell = true → t.initialized = true) :
    ∀ callback id, p.callee = some (callback, id) →
      ∃ t, s.slot? id = some t ∧ callback.Timely t.state ∧
        (callback.isFarewell = true → t.initialized = true) := by
  intro callback id h
  cases hp.symm.trans h
  exact ⟨t, ht, htimely, hinit⟩

theorem seen_of_unmarked {m m' : Moment κ} (h : m.Timed) (hu : m.scene.Unmarked m'.scene)
    {marks : Journal κ} (hj : m'.journal = m.journal ++ marks)
    (hdue : ∀ id, ¬ (m.calling = none ∧ m.phase.callee = some (.init, id))) :
    ∀ id t, m'.scene.slot? id = some t → t.initialized = true →
      (∃ s, .called .init ⟨t.owner, id⟩ s ∈ m'.journal) ∨
        m'.calling = none ∧ m'.phase.callee = some (.init, id) := by
  intro id t' ht' hi
  obtain ⟨t, ht, hti, howner⟩ := hu id t' ht' hi
  rcases h.seen id t ht hti with ⟨s, hmem⟩ | hinit
  · rw [← howner, hj]
    exact .inl ⟨s, List.mem_append_left _ hmem⟩
  · exact absurd hinit (hdue id)

theorem due_move {s : Scene κ} {p p' : Phase κ} (h : Move s p p') :
    ∀ callback id, p'.callee = some (callback, id) →
      ∃ t, s.slot? id = some t ∧ callback.Timely t.state ∧
        (callback.isFarewell = true → t.initialized = true) := by
  cases h with
  | @tick delta absolute id rest h =>
    rcases Scene.lifecycle?_cases h with ⟨t, ht, hrun⟩ | ⟨_, _, hremoved⟩
    · exact due_some rfl ht hrun nofun
    · cases hremoved
  | @endHook id slot doomed rest h hi hstate =>
    have hid := Scene.slot?_id h
    subst hid
    refine due_some rfl h ?_ fun _ => hi
    split
    · assumption
    · exact hstate.resolve_left ‹_›
  | _ => exact due_none rfl

theorem due_act {s s' : Scene κ} {p p' : Phase κ} {marks : Journal κ} (h : Act s p p' s' marks) :
    ∀ callback id, p'.callee = some (callback, id) →
      ∃ t, s'.slot? id = some t ∧ callback.Timely t.state ∧
        (callback.isFarewell = true → t.initialized = true) := by
  cases h with
  | @start id batch h =>
    rcases Scene.lifecycle?_cases h with ⟨t, ht, hnew⟩ | ⟨_, _, hremoved⟩
    · exact due_some rfl (Scene.slot?_modifySlot_self ht _ fun _ => rfl) hnew (by rintro ⟨⟩)
    · cases hremoved
  | @initialized id batch slot h hstate =>
    exact due_some rfl (Scene.slot?_modifySlot_self h _ fun _ => rfl) rfl (by rintro ⟨⟩)
  | @serve late m recipient rest h =>
    simp only [Scene.accepts, Bool.and_eq_true, decide_eq_true_eq] at h
    rcases Scene.lifecycle?_cases h.1.1 with ⟨t, ht, hrun⟩ | ⟨_, _, hremoved⟩
    · exact due_some rfl ht hrun (by rintro ⟨⟩)
    · cases hremoved
  | _ => exact due_none rfl

theorem empty : (⟨.idle, none, {}, []⟩ : Moment κ).Timed :=
  ⟨fun _ => due_none rfl, nofun,
    ⟨fun _ _ _ h => absurd h List.not_mem_nil, fun before _ _ _ _ h => by cases before <;> cases h⟩⟩

theorem act {s s' : Scene κ} {p p' : Phase κ} {j marks : Journal κ}
    (h : (⟨p, none, s, j⟩ : Moment κ).Timed) (ha : Act s p p' s' marks) :
    (⟨p', none, s', j ++ marks⟩ : Moment κ).Timed := by
  have hquiet : (j ++ marks : Journal κ).Ordered := by
    refine h.ordered.quiet fun callback self s hmem => ?_
    cases ha with
    | take | serve | pass => cases List.mem_singleton.1 hmem
    | _ => cases hmem
  have hdue : ∀ id, ¬ ((none : Option Caller) = none ∧ p.callee = some (.init, id)) := by
    intro id ⟨_, hp⟩
    cases ha <;> cases hp
  refine ⟨fun _ => due_act ha, ?_, hquiet⟩
  rcases ha.unmarked with hunmarked | ⟨id, batch, rfl, rfl, rfl⟩
  · exact h.seen_of_unmarked hunmarked rfl hdue
  · intro x t' ht' hi
    rcases Scene.slot?_of_marked ht' with rfl | hsame
    · exact .inr ⟨rfl, rfl⟩
    · rcases h.seen x t' hsame hi with ⟨s, hmem⟩ | hinit
      · exact .inl ⟨s, List.mem_append_left _ hmem⟩
      · exact absurd hinit (hdue x)

theorem call {p : Phase κ} {callback : Callback} {id : ComponentId} {s : Scene κ} {j : Journal κ}
    {slot : Slot κ} (h : (⟨p, none, s, j⟩ : Moment κ).Timed) (hp : p.callee = some (callback, id))
    (hslot : s.slot? id = some slot) :
    (⟨p, some ⟨slot.owner, id⟩, s.takeOut id,
      j ++ [.called callback ⟨slot.owner, id⟩ (s.takeOut id)]⟩ : Moment κ).Timed := by
  obtain ⟨t, ht, htimely, hinit⟩ := h.due rfl callback id hp
  cases hslot.symm.trans ht
  have hout : (s.takeOut id).slot? id = some { slot with component := none } :=
    Scene.slot?_modifySlot_self hslot _ fun _ => rfl
  refine ⟨nofun, fun x t' ht' hi => .inl ?_, ?_⟩
  · rcases Scene.Continues.takeOut (s := s) id x t' ht' with hfresh | ⟨u, hu, hcont⟩
    · cases hi.symm.trans hfresh.initialized
    rw [hcont.owner]
    rcases h.seen x u hu (hcont.initialized.symm.trans hi) with ⟨s', hmem⟩ | ⟨_, hpx⟩
    · exact ⟨s', List.mem_append_left _ hmem⟩
    · -- It is the `init` that is called now.
      cases hp.symm.trans hpx
      cases hslot.symm.trans hu
      exact ⟨_, List.mem_append_right _ (List.mem_singleton_self _)⟩
  · refine h.ordered.call (Scene.lifecycle?_of_slot hout) htimely fun hf => ?_
    rcases h.seen id slot hslot (hinit hf) with hmem | ⟨_, hpx⟩
    · exact hmem
    · cases hp.symm.trans hpx
      cases hf

variable [Named κ] in
theorem step {m m' : Moment κ} (h : m.Timed) (hr : m'.phase.Retires m'.scene) (hs : Step m m') :
    m'.Timed := by
  have hbusy : ∀ {p : Phase κ} {self : Caller} {id : ComponentId},
      ¬ (some self = none ∧ p.callee = some (.init, id)) := fun h => nomatch h.1
  cases hs with
  | onward ho =>
    cases ho with
    | @hosted s j c =>
      refine ⟨fun _ => due_none rfl, ?_, h.ordered.quiet fun _ _ _ hmem => ?_⟩
      · exact h.seen_of_unmarked (Scene.Continues.change (Scene.change_apply s c)).unmarked rfl
          fun _ hi => nomatch hi.2
      · cases List.mem_singleton.1 hmem
    | @move p p' s j hmove =>
      refine ⟨fun _ => due_move hmove, ?_, h.ordered⟩
      refine h.seen_of_unmarked (Scene.Continues.of_slots rfl).unmarked (List.append_nil j).symm
        fun id hi => ?_
      cases hmove <;> cases hi.2
    | act ha => exact h.act ha
    | call hp hslot => exact h.call hp hslot
    | @ask p self s j r =>
      refine ⟨nofun, ?_, h.ordered.quiet fun _ _ _ hmem => ?_⟩
      · exact h.seen_of_unmarked (Scene.Continues.change (Scene.change_answer s self r)).unmarked rfl
          fun _ => hbusy
      · cases List.mem_singleton.1 hmem
    | @back p self s j component =>
      refine ⟨fun _ => ?_, ?_, h.ordered⟩
      · cases p with
        | ending slot doomed rest =>
          obtain ⟨⟨t, ht, hslot, _, hstopped⟩, hi⟩ := hr
          exact due_some rfl ht hstopped fun _ => hslot.trans hi
        | _ => exact due_none rfl
      · exact h.seen_of_unmarked (Scene.Continues.putBack _ component).unmarked
          (List.append_nil j).symm fun _ => hbusy
  | @fail p self s j component =>
    refine ⟨fun _ => due_none rfl, ?_, h.ordered.quiet fun callback self s hmem => ?_⟩
    · exact h.seen_of_unmarked (Scene.Continues.recover p self.component component).unmarked rfl
        fun _ => hbusy
    · cases p with
      | ending | removing => cases List.mem_singleton.1 hmem
      | _ => cases hmem

end Moment.Timed

theorem Course.timed [Named κ] {past : List (Moment κ)} {m : Moment κ} (h : Course past m) :
    m.Timed := by
  induction h with
  | start => exact .empty
  | step h hs ih => exact ih.step (h.step hs).retires hs

end FrameChain
