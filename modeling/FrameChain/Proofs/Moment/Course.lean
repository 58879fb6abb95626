import FrameChain.Proofs.Moment.Run

set_option autoImplicit false

namespace FrameChain

variable {κ ω : Type}

namespace Lifecycle

def stage : Lifecycle → Nat
  | new => 0
  | initialized => 1
  | running => 2
  | finished | detached => 3
  | removed => 4

/-- Forward or not at all. Nothing leads from `finished` to `detached`, or back. -/
def Leads (a b : Lifecycle) : Prop := a = b ∨ a.stage < b.stage

theorem Leads.refl (a : Lifecycle) : a.Leads a := .inl rfl

theorem Leads.trans {a b c : Lifecycle} (h : a.Leads b) (h' : b.Leads c) : a.Leads c := by
  rcases h with rfl | h
  · exact h'
  · rcases h' with rfl | h'
    · exact .inr h
    · exact .inr (Nat.lt_trans h h')

theorem leads_removed (a : Lifecycle) : a.Leads .removed := by
  cases a
  case removed => exact .refl _
  all_goals exact .inr (by decide)

theorem leads_of_not_isDone {a : Lifecycle} (h : a.isDone = false) (ending : Scene.Ending) :
    a.Leads ending.lifecycle := by
  cases a
  case new | initialized | running => cases ending <;> exact .inr (by decide)
  all_goals cases h

theorem Leads.eq_of_isDone {a b : Lifecycle} (h : a.Leads b) (hd : a.isDone = true)
    (hb : b ≠ .removed) : b = a := by
  rcases h with rfl | h
  · rfl
  · have hlate : 3 ≤ a.stage := by
      cases a
      case finished | detached | removed => decide
      all_goals cases hd
    cases b
    case removed => exact absurd rfl hb
    all_goals exact absurd (Nat.lt_of_le_of_lt hlate h) (by decide)

theorem Leads.isDone {a b : Lifecycle} (h : a.Leads b) (hd : a.isDone = true) :
    b.isDone = true := by
  by_cases hb : b = .removed
  · rw [hb]
    rfl
  · rw [h.eq_of_isDone hd hb]
    exact hd

theorem ending_isDone (ending : Scene.Ending) : ending.lifecycle.isDone = true := by
  cases ending <;> rfl

end Lifecycle

namespace Scene

theorem lifecycle?_of_slot {s : Scene κ} {id : ComponentId} {t : Slot κ}
    (h : s.slot? id = some t) : s.lifecycle? id = some t.state := by
  rw [lifecycle?, h]

theorem isDone_of_slot {s : Scene κ} {id : ComponentId} {t : Slot κ}
    (h : s.slot? id = some t) : s.isDone id = t.state.isDone := by
  rw [isDone, lifecycle?_of_slot h]

theorem isDone_of_no_slot {s : Scene κ} {id : ComponentId} (h : s.slot? id = none) :
    s.isDone id = true := by
  rw [isDone, lifecycle?, h]
  dsimp only
  cases s.wasIssued id <;> rfl

theorem lifecycle?_of_gone {s : Scene κ} {id : ComponentId} (h : s.slot? id = none)
    (hi : s.wasIssued id = true) : s.lifecycle? id = some .removed := by
  rw [lifecycle?, h]
  exact if_pos hi

theorem lifecycle?_cases {s : Scene κ} {id : ComponentId} {a : Lifecycle}
    (h : s.lifecycle? id = some a) :
    (∃ t, s.slot? id = some t ∧ t.state = a) ∨
      (s.slot? id = none ∧ s.wasIssued id = true ∧ a = .removed) := by
  unfold lifecycle? at h
  cases hs : s.slot? id with
  | some t =>
    rw [hs] at h
    exact .inl ⟨t, rfl, Option.some.inj h⟩
  | none =>
    rw [hs] at h
    dsimp only at h
    split at h
    · exact .inr ⟨rfl, ‹_›, (Option.some.inj h).symm⟩
    · cases h

theorem wasIssued_iff {s : Scene κ} {id : ComponentId} :
    s.wasIssued id = true ↔ 0 < id.val ∧ id.val ≤ s.componentsIssued := by
  rw [wasIssued, Bool.and_eq_true, decide_eq_true_eq, decide_eq_true_eq]

theorem wasIssued_of_slot {s : Scene κ} (h : s.registry.Consistent) {id : ComponentId} {t : Slot κ}
    (ht : s.slot? id = some t) : s.wasIssued id = true := by
  have hissued := h.slots_issued (t.id, t.owner) (List.mem_map_of_mem (slot?_mem ht))
  rw [slot?_id ht] at hissued
  exact wasIssued_iff.2 hissued

theorem lifecycle?_isSome {s : Scene κ} (h : s.registry.Consistent) (id : ComponentId) :
    (s.lifecycle? id).isSome = true ↔ s.wasIssued id = true := by
  rw [Option.isSome_iff_exists]
  constructor
  · intro ⟨a, ha⟩
    rcases lifecycle?_cases ha with ⟨t, ht, _⟩ | ⟨_, hi, _⟩
    · exact wasIssued_of_slot h ht
    · exact hi
  · intro hi
    cases hs : s.slot? id with
    | some t => exact ⟨_, lifecycle?_of_slot hs⟩
    | none => exact ⟨_, lifecycle?_of_gone hs hi⟩

end Scene

structure Slot.Advances (t t' : Slot κ) : Prop where
  owner : t'.owner = t.owner
  name : t'.name = t.name
  initialized : t.initialized = true → t'.initialized = true
  state : t.state.Leads t'.state

theorem Slot.Advances.refl (t : Slot κ) : t.Advances t := ⟨rfl, rfl, fun h => h, .refl _⟩

theorem Slot.Advances.trans {t u v : Slot κ} (h : t.Advances u) (h' : u.Advances v) :
    t.Advances v :=
  ⟨h'.owner.trans h.owner, h'.name.trans h.name, h'.initialized ∘ h.initialized,
    h.state.trans h'.state⟩

theorem Slot.Evolves.advances {t t' : Slot κ} (h : t.Evolves t') : t.Advances t' := by
  refine ⟨h.owner, h.name, fun hi => h.initialized.trans hi, ?_⟩
  rcases h.state with hs | ⟨hd, hs | hs⟩
  · exact .inl hs.symm
  · exact hs ▸ Lifecycle.leads_of_not_isDone hd .finished
  · exact hs ▸ Lifecycle.leads_of_not_isDone hd .detached

structure Slot.Fresh (t : Slot κ) : Prop where
  state : t.state = .new
  initialized : t.initialized = false

namespace Scene

structure Advances (s s' : Scene κ) : Prop where
  slot : ∀ id t, s.slot? id = some t → ∃ t', s'.slot? id = some t' ∧ t.Advances t'
  fresh : ∀ id t, s.slot? id = none → s'.slot? id = some t →
    s.componentsIssued < id.val ∧ t.Fresh
  issued : s.componentsIssued ≤ s'.componentsIssued
  /-- Whoever is issued meanwhile has a slot. -/
  seated : ∀ id, s'.slot? id = none → s'.wasIssued id = true → s.wasIssued id = true

theorem wasIssued_congr {s s' : Scene κ} (h : s'.componentsIssued = s.componentsIssued)
    (id : ComponentId) : s'.wasIssued id = s.wasIssued id := by rw [wasIssued, wasIssued, h]

theorem Advances.of_slots {s s' : Scene κ} (hs : s'.slots = s.slots)
    (hi : s'.componentsIssued = s.componentsIssued) : s.Advances s' := by
  have hslot : ∀ id, s'.slot? id = s.slot? id := fun id => by rw [slot?, slot?, hs]
  refine ⟨fun id t ht => ⟨t, (hslot id).trans ht, .refl t⟩, fun id t hn ht => ?_,
    Nat.le_of_eq hi.symm, fun id _ hid => (wasIssued_congr hi id).symm.trans hid⟩
  rw [hslot, hn] at ht
  cases ht

theorem slot?_modifySlot_eq_none_iff (s : Scene κ) (id x : ComponentId) (f : Slot κ → Slot κ)
    (hid : ∀ t, (f t).id = t.id) : (s.modifySlot id f).slot? x = none ↔ s.slot? x = none := by
  rw [slot?_modifySlot s id x f hid, Option.map_eq_none_iff]

theorem advances_modifySlot (s : Scene κ) (id : ComponentId) (f : Slot κ → Slot κ)
    (hid : ∀ t, (f t).id = t.id) (hf : ∀ t, s.slot? id = some t → t.Advances (f t)) :
    s.Advances (s.modifySlot id f) := by
  refine ⟨fun x t ht => ?_, fun x t hn ht => ?_, Nat.le_refl _, fun _ _ hx => hx⟩
  · rw [slot?_modifySlot s id x f hid, ht]
    refine ⟨_, rfl, ?_⟩
    dsimp only
    split
    · rename_i hx
      rw [beq_iff_eq, slot?_id ht] at hx
      exact hf t (hx ▸ ht)
    · exact .refl t
  · rw [(slot?_modifySlot_eq_none_iff s id x f hid).2 hn] at ht
    cases ht

theorem Advances.trans {s u v : Scene κ} (h : s.Advances u) (h' : u.Advances v)
    (hnone : ∀ id, s.slot? id = none → u.slot? id = none) : s.Advances v := by
  refine ⟨fun id t ht => ?_, fun id t hn ht => ?_, Nat.le_trans h.issued h'.issued,
    fun id hn hid => ?_⟩
  · obtain ⟨t', ht', ha⟩ := h.slot id t ht
    obtain ⟨t'', ht'', ha'⟩ := h'.slot id t' ht'
    exact ⟨t'', ht'', ha.trans ha'⟩
  · obtain ⟨hlt, hfresh⟩ := h'.fresh id t (hnone id hn) ht
    exact ⟨Nat.lt_of_le_of_lt h.issued hlt, hfresh⟩
  · have hu := h'.seated id hn hid
    cases hslot : u.slot? id with
    | none => exact h.seated id hslot hu
    | some t =>
      obtain ⟨t', ht', _⟩ := h'.slot id t hslot
      cases hn.symm.trans ht'

theorem Change.fresh [Named κ] {s s' : Scene κ} (h : Change s s') {id : ComponentId} {t : Slot κ}
    (hn : s.slot? id = none) (ht : s'.slot? id = some t) :
    id = ⟨s.componentsIssued + 1⟩ ∧ t.Fresh := by
  have hsame : s'.slots = s.slots → id = ⟨s.componentsIssued + 1⟩ ∧ t.Fresh := by
    intro heq
    rw [slot?, heq] at ht
    cases hn.symm.trans ht
  cases h with
  | @attached owner e component ho =>
    simp only [addComponent, ho, slot?, modifyEntity, List.find?_append] at ht
    rw [slot?] at hn
    rw [hn, Option.none_or, List.find?_singleton] at ht
    split at ht
    · rename_i hid
      cases ht
      exact ⟨(beq_iff_eq.1 hid).symm, rfl, rfl⟩
    · cases ht
  | stopped x ending =>
    have hid : ∀ t : Slot κ, (if t.state.isDone then t else
      { t with state := ending.lifecycle }).id = t.id := fun t => by split <;> rfl
    rw [markStopped, (slot?_modifySlot_eq_none_iff s x id _ hid).2 hn] at ht
    cases ht
  | edited x f =>
    let edit : Slot κ → Slot κ := fun slot => { slot with component := slot.component.map f }
    have hnone := (slot?_modifySlot_eq_none_iff s x id edit fun _ => rfl).2 hn
    cases hnone.symm.trans ht
  | _ => exact hsame rfl

theorem Change.seated [Named κ] {s s' : Scene κ} (h : Change s s') {id : ComponentId}
    (hn : s'.slot? id = none) (hid : s'.wasIssued id = true) : s.wasIssued id = true := by
  cases h with
  | @attached owner e component ho =>
    simp only [addComponent, ho, slot?, List.find?_append, Option.or_eq_none_iff] at hn
    simp only [addComponent, ho] at hid
    rw [wasIssued_iff] at hid ⊢
    refine ⟨hid.1, Nat.le_of_lt_succ (Nat.lt_of_le_of_ne hid.2 fun heq => ?_)⟩
    -- The id that was issued is that of the last slot.
    have hlast : (⟨s.componentsIssued + 1⟩ : ComponentId) = id := congrArg ComponentId.mk heq.symm
    simp [hlast] at hn
  | _ => exact hid

theorem Change.advances [Named κ] {s s' : Scene κ} (h : Change s s') : s.Advances s' := by
  refine ⟨fun id t ht => ?_, fun id t hn ht => ?_, h.later.issued, fun _ hn hid => h.seated hn hid⟩
  · obtain ⟨t', ht', hev⟩ := h.later.slot id t ht
    exact ⟨t', ht', hev.advances⟩
  · obtain ⟨rfl, hfresh⟩ := h.fresh hn ht
    exact ⟨Nat.lt_succ_self _, hfresh⟩

theorem Advances.wasIssued {s s' : Scene κ} (h : s.Advances s') {id : ComponentId}
    (hi : s.wasIssued id = true) : s'.wasIssued id = true := by
  rw [wasIssued_iff] at hi ⊢
  exact ⟨hi.1, Nat.le_trans hi.2 h.issued⟩

theorem Advances.gone_iff {s s' : Scene κ} (h : s.Advances s') (id : ComponentId) :
    s'.slot? id = none ∧ s'.wasIssued id = true ↔ s.slot? id = none ∧ s.wasIssued id = true := by
  constructor
  · intro ⟨hn, hi⟩
    refine ⟨?_, h.seated id hn hi⟩
    cases ht : s.slot? id with
    | none => rfl
    | some t =>
      obtain ⟨t', ht', _⟩ := h.slot id t ht
      cases hn.symm.trans ht'
  · intro ⟨hn, hi⟩
    refine ⟨?_, h.wasIssued hi⟩
    cases ht' : s'.slot? id with
    | none => rfl
    | some t' => exact absurd (h.fresh id t' hn ht').1 (Nat.not_lt.2 (wasIssued_iff.1 hi).2)

def Untouched (s : Scene κ) (id : ComponentId) : Prop :=
  s.wasIssued id = false ∨ ∃ t, s.slot? id = some t ∧ t.initialized = false

theorem Advances.untouched {s s' : Scene κ} (h : s.Advances s') {id : ComponentId}
    (hu : s'.Untouched id) : s.Untouched id := by
  rcases hu with hi | ⟨t', ht', hi⟩
  · exact .inl (Bool.eq_false_iff.2 fun hold => Bool.eq_false_iff.1 hi (h.wasIssued hold))
  · cases ht : s.slot? id with
    | some t =>
      obtain ⟨u, hu, hslot⟩ := h.slot id t ht
      cases ht'.symm.trans hu
      exact .inr ⟨t, ht, Bool.eq_false_iff.2 fun hseen =>
        Bool.eq_false_iff.1 hi (hslot.initialized hseen)⟩
    | none =>
      have hlt := (h.fresh id t' ht ht').1
      exact .inl (Bool.eq_false_iff.2 fun hold => Nat.not_lt.2 (wasIssued_iff.1 hold).2 hlt)

/-- The components of the entities whose removal is due. -/
def evicted (s : Scene κ) : List ComponentId :=
  s.removalQueue.flatMap fun entity => ((s.entity? entity).map (·.components)).getD []

def markDetached (s : Scene κ) (ids : List ComponentId) : Scene κ :=
  ids.foldl (fun s id => s.markStopped id .detached) s

theorem detachDoomed_eq (s : Scene κ) :
    s.detachDoomed = ({ s with removalQueue := [] } : Scene κ).markDetached s.evicted := by
  have hfold : ∀ (queue : List EntityId) (u : Scene κ), u.entities = s.entities →
      queue.foldl detachComponents u =
        u.markDetached (queue.flatMap fun entity =>
          ((s.entity? entity).map (·.components)).getD []) := by
    intro queue
    induction queue with
    | nil => exact fun u _ => rfl
    | cons entity rest ih =>
      intro u hu
      have hstep : u.detachComponents entity =
          u.markDetached (((s.entity? entity).map (·.components)).getD []) := by
        unfold detachComponents entity?
        rw [hu]
        cases s.entities.find? fun entry => entry.1 == entity <;> rfl
      have hentities : (u.markDetached (((s.entity? entity).map (·.components)).getD [])).entities =
          s.entities := by
        refine (foldl_frame (fun s : Scene κ => s.entities) (fun s id => ?_) _ u).trans hu
        rfl
      rw [List.foldl_cons, hstep, ih _ hentities, List.flatMap_cons]
      unfold markDetached
      rw [List.foldl_append]
  exact hfold s.removalQueue _ rfl

theorem slot?_markStopped (s : Scene κ) (id x : ComponentId) (ending : Ending) :
    (s.markStopped id ending).slot? x = (s.slot? x).map fun t =>
      if t.id == id then if t.state.isDone then t else { t with state := ending.lifecycle }
      else t :=
  slot?_modifySlot s id x _ fun t => by split <;> rfl

theorem isDone_markStopped (s : Scene κ) (id : ComponentId) (ending : Ending) :
    (s.markStopped id ending).isDone id = true := by
  cases hs : (s.markStopped id ending).slot? id with
  | none => exact isDone_of_no_slot hs
  | some t =>
    rw [isDone_of_slot hs]
    exact isDone_of_markStopped hs

theorem slot?_foldl_stopping {f : Scene κ → ComponentId → Scene κ} {ending : Ending}
    (hf : ∀ s i x, (f s i).slot? x = (s.markStopped i ending).slot? x) (s : Scene κ)
    (ids : List ComponentId) (x : ComponentId) :
    (ids.foldl f s).slot? x = (s.slot? x).map fun t =>
      if t.state.isDone = false ∧ x ∈ ids then { t with state := ending.lifecycle } else t := by
  have hending : ending.lifecycle.isDone = true := by cases ending <;> rfl
  induction ids generalizing s with
  | nil => simp
  | cons id rest ih =>
    rw [List.foldl_cons, ih, hf, slot?_markStopped]
    cases ht : s.slot? x with
    | none => rfl
    | some t =>
      have hid := slot?_id ht
      simp only [Option.map_some, Option.some.injEq, List.mem_cons, beq_iff_eq, hid]
      cases hd : t.state.isDone with
      | true => by_cases hx : x = id <;> simp [hx, hd]
      | false =>
        by_cases hx : x = id
        · simp [hx, hending]
        · by_cases hr : x ∈ rest <;> simp [hx, hd, hr, hid]

theorem slot?_markDetached (s : Scene κ) (ids : List ComponentId) (x : ComponentId) :
    (s.markDetached ids).slot? x = (s.slot? x).map fun t =>
      if t.state.isDone = false ∧ x ∈ ids then { t with state := .detached } else t :=
  slot?_foldl_stopping (f := fun s id => s.markStopped id .detached) (fun _ _ _ => rfl) s ids x

theorem slot?_detachDoomed (s : Scene κ) (x : ComponentId) :
    s.detachDoomed.slot? x = (s.slot? x).map fun t =>
      if t.state.isDone = false ∧ x ∈ s.evicted then { t with state := .detached } else t := by
  rw [detachDoomed_eq, slot?_markDetached]
  rfl

theorem advances_detachDoomed (s : Scene κ) : s.Advances s.detachDoomed := by
  have hissued : s.detachDoomed.componentsIssued = s.componentsIssued := by
    rw [detachDoomed_eq]
    exact foldl_frame (fun s : Scene κ => s.componentsIssued)
      (f := fun s id => s.markStopped id .detached) (fun _ _ => rfl) s.evicted _
  refine ⟨fun id t ht => ?_, fun id t hn ht => ?_, Nat.le_of_eq hissued.symm,
    fun id _ hid => (wasIssued_congr hissued id).symm.trans hid⟩
  · rw [slot?_detachDoomed, ht]
    refine ⟨_, rfl, ?_⟩
    dsimp only
    split
    · rename_i h
      exact ⟨rfl, rfl, fun hi => hi, Lifecycle.leads_of_not_isDone h.1 .detached⟩
    · exact .refl t
  · rw [slot?_detachDoomed, hn] at ht
    cases ht

theorem slot?_dropSlot_self (s : Scene κ) (slot : Slot κ) :
    (s.dropSlot slot).slot? slot.id = none := by
  rw [slot?, dropSlot, List.find?_eq_none]
  intro t ht
  have hne := (List.mem_filter.1 ht).2
  simpa using hne

theorem slot?_putBack (s : Scene κ) (id x : ComponentId) (component : κ) :
    (s.putBack id component).slot? x = (s.slot? x).map fun t =>
      if t.id == id then { t with component := some component } else t :=
  slot?_modifySlot s id x _ fun _ => rfl

theorem slot?_setState (s : Scene κ) (id x : ComponentId) (state : Lifecycle) :
    (s.setState id state).slot? x = (s.slot? x).map fun t =>
      if t.id == id then { t with state } else t :=
  slot?_modifySlot s id x _ fun _ => rfl

theorem slot?_clear (s : Scene κ) (doomed : List EntityId) (x : ComponentId) :
    (doomed.foldl removeIfEmpty s).slot? x = s.slot? x := by
  refine foldl_frame (fun s : Scene κ => s.slot? x) (fun s entity => ?_) doomed s
  unfold removeIfEmpty
  split <;> rfl

theorem advances_clear (s : Scene κ) (doomed : List EntityId) :
    s.Advances (doomed.foldl removeIfEmpty s) := by
  have hview := foldl_frame (fun s : Scene κ => (s.slots, s.componentsIssued)) (f := removeIfEmpty)
    (fun s entity => by unfold removeIfEmpty; split <;> rfl) doomed s
  exact .of_slots (congrArg Prod.fst hview) (congrArg Prod.snd hview)

end Scene

/-- The slot is that of the component still, which at most has stopped since. -/
structure Slot.Continues (t t' : Slot κ) : Prop where
  owner : t'.owner = t.owner
  initialized : t'.initialized = t.initialized
  state : t'.state = t.state ∨
    t.state.isDone = false ∧ (t'.state = .finished ∨ t'.state = .detached)

theorem Slot.Continues.refl (t : Slot κ) : t.Continues t := ⟨rfl, rfl, .inl rfl⟩

theorem Slot.Evolves.continues {t t' : Slot κ} (h : t.Evolves t') : t.Continues t' :=
  ⟨h.owner, h.initialized, h.state⟩

theorem Slot.Continues.running {t t' : Slot κ} (h : t.Continues t') (hr : t'.state = .running) :
    t.state = .running := by
  rcases h.state with hs | ⟨_, hs | hs⟩
  · exact hs.symm.trans hr
  · cases hs.symm.trans hr
  · cases hs.symm.trans hr

def Scene.Continues (s s' : Scene κ) : Prop :=
  ∀ id t', s'.slot? id = some t' → t'.Fresh ∨ ∃ t, s.slot? id = some t ∧ t.Continues t'

namespace Scene.Continues

variable {s s' : Scene κ}

theorem of_slot? (h : ∀ id, s'.slot? id = s.slot? id) : s.Continues s' := by
  intro id t' ht'
  rw [h] at ht'
  exact .inr ⟨t', ht', .refl t'⟩

theorem of_slots (h : s'.slots = s.slots) : s.Continues s' :=
  of_slot? fun id => by rw [slot?, slot?, h]

theorem modifySlot (id : ComponentId) (f : Slot κ → Slot κ) (hid : ∀ t, (f t).id = t.id)
    (hf : ∀ t : Slot κ, t.Continues (f t)) : s.Continues (s.modifySlot id f) := by
  intro x t' ht'
  rw [slot?_modifySlot s id x f hid] at ht'
  obtain ⟨t, ht, rfl⟩ := Option.map_eq_some_iff.1 ht'
  refine .inr ⟨t, ht, ?_⟩
  split
  · exact hf t
  · exact .refl t

theorem takeOut (id : ComponentId) : s.Continues (s.takeOut id) :=
  modifySlot id _ (fun _ => rfl) fun _ => ⟨rfl, rfl, .inl rfl⟩

theorem putBack (id : ComponentId) (component : κ) : s.Continues (s.putBack id component) :=
  modifySlot id _ (fun _ => rfl) fun _ => ⟨rfl, rfl, .inl rfl⟩

theorem change [Named κ] (h : Change s s') : s.Continues s' := by
  intro id t' ht'
  cases ht : s.slot? id with
  | none => exact .inl (h.fresh ht ht').2
  | some t =>
    obtain ⟨u, hu, hev⟩ := h.later.slot id t ht
    cases hu.symm.trans ht'
    exact .inr ⟨t, rfl, hev.continues⟩

theorem detachDoomed : s.Continues s.detachDoomed := by
  intro id t' ht'
  rw [slot?_detachDoomed] at ht'
  obtain ⟨t, ht, rfl⟩ := Option.map_eq_some_iff.1 ht'
  refine .inr ⟨t, ht, ?_⟩
  split
  · rename_i h
    exact ⟨rfl, rfl, .inr ⟨h.1, .inr rfl⟩⟩
  · exact .refl t

theorem dropSlot (slot : Slot κ) : s.Continues (s.dropSlot slot) := by
  intro id t' ht'
  have hne : id ≠ slot.id := by
    rintro rfl
    rw [slot?_dropSlot_self] at ht'
    cases ht'
  rw [slot?_dropSlot s slot hne] at ht'
  exact .inr ⟨t', ht', .refl t'⟩

theorem clear (doomed : List EntityId) : s.Continues (doomed.foldl removeIfEmpty s) :=
  of_slot? (s.slot?_clear doomed)

theorem recover [Named κ] (p : Phase κ) (id : ComponentId) (component : κ) :
    s.Continues (p.recover (s.putBack id component)) := by
  have hstop : ∀ x, s.Continues ((s.putBack id component).stop x .detached).2 := by
    intro x y t' ht'
    rcases change (change_stop (s.putBack id component) x .detached) y t' ht' with hfresh | ⟨u, hu, hcu⟩
    · exact .inl hfresh
    · rw [slot?_putBack] at hu
      obtain ⟨t, ht, rfl⟩ := Option.map_eq_some_iff.1 hu
      refine .inr ⟨t, ht, ?_⟩
      split at hcu <;> exact ⟨hcu.owner, hcu.initialized, hcu.state⟩
  cases p with
  | initializing x batch | joining x batch => exact hstop x
  | _ => exact putBack id component

end Scene.Continues

namespace Scene

/-- Whoever was issued before is still there, at the same stage or at a later one. -/
def Forward (s s' : Scene κ) : Prop :=
  ∀ id a, s.lifecycle? id = some a → ∃ b, s'.lifecycle? id = some b ∧ a.Leads b

theorem Forward.trans {s u v : Scene κ} (h : s.Forward u) (h' : u.Forward v) : s.Forward v := by
  intro id a ha
  obtain ⟨b, hb, hab⟩ := h id a ha
  obtain ⟨c, hc, hbc⟩ := h' id b hb
  exact ⟨c, hc, hab.trans hbc⟩

theorem Forward.isDone {s s' : Scene κ} (h : s.Forward s') {id : ComponentId}
    (hi : s.wasIssued id = true) (hd : s.isDone id = true) : s'.isDone id = true := by
  have hlater {a : Lifecycle} (ha : s.lifecycle? id = some a) : s'.isDone id = true := by
    obtain ⟨b, hb, hab⟩ := h id a ha
    rw [Scene.isDone, ha] at hd
    rw [Scene.isDone, hb]
    exact hab.isDone hd
  cases ht : s.slot? id with
  | some t => exact hlater (lifecycle?_of_slot ht)
  | none => exact hlater (lifecycle?_of_gone ht hi)

theorem Advances.forward {s s' : Scene κ} (h : s.Advances s') : s.Forward s' := by
  intro id a ha
  rcases lifecycle?_cases ha with ⟨t, ht, rfl⟩ | ⟨hn, hi, rfl⟩
  · obtain ⟨t', ht', hadv⟩ := h.slot id t ht
    exact ⟨t'.state, lifecycle?_of_slot ht', hadv.state⟩
  · obtain ⟨hn', hi'⟩ := (h.gone_iff id).2 ⟨hn, hi⟩
    exact ⟨.removed, lifecycle?_of_gone hn' hi', .refl _⟩

theorem forward_dropSlot {s : Scene κ} (h : s.registry.Consistent) (slot : Slot κ) :
    s.Forward (s.dropSlot slot) := by
  intro id a ha
  have hi : (s.dropSlot slot).wasIssued id = true :=
    (lifecycle?_isSome h id).1 (Option.isSome_iff_exists.2 ⟨a, ha⟩)
  by_cases hid : id = slot.id
  · subst hid
    exact ⟨.removed, lifecycle?_of_gone (s.slot?_dropSlot_self slot) hi, a.leads_removed⟩
  · refine ⟨a, ?_, .refl a⟩
    rw [lifecycle?, slot?_dropSlot s slot hid]
    exact ha

end Scene

/-! ## One step -/

def Phase.dropped? : Phase κ → Option (Slot κ)
  | dropping slot _ _ => some slot
  | _ => none

theorem Act.advances {s s' : Scene κ} {p p' : Phase κ} {marks : Journal κ}
    (h : Act s p p' s' marks) : s.Advances s' ∨ ∃ slot, p.dropped? = some slot ∧
      s' = s.dropSlot slot := by
  cases h with
  | start h =>
    refine .inl (s.advances_modifySlot _ _ (fun _ => rfl) fun t _ => ?_)
    exact ⟨rfl, rfl, fun _ => rfl, .refl _⟩
  | @initialized id batch slot h hstate =>
    refine .inl (s.advances_modifySlot _ _ (fun _ => rfl) fun t ht => ?_)
    cases h.symm.trans ht
    exact ⟨rfl, rfl, fun hi => hi, hstate ▸ .inr Nat.one_pos⟩
  | @run id batch slot h hstate =>
    have hrun : s.Advances (s.setState id .running) := by
      refine s.advances_modifySlot _ _ (fun _ => rfl) fun t ht => ?_
      cases h.symm.trans ht
      exact ⟨rfl, rfl, fun hi => hi, hstate ▸ .inr Nat.one_lt_two⟩
    exact .inl ⟨hrun.slot, hrun.fresh, hrun.issued, hrun.seated⟩
  | round => exact .inl s.advances_detachDoomed
  | drop => exact .inr ⟨_, rfl, rfl⟩
  | clear => exact .inl (s.advances_clear _)
  | _ => exact .inl (.of_slots rfl rfl)

theorem Scene.advances_takeOut (s : Scene κ) (id : ComponentId) : s.Advances (s.takeOut id) :=
  s.advances_modifySlot id _ (fun _ => rfl) fun _ _ => ⟨rfl, rfl, fun hi => hi, .refl _⟩

theorem Scene.advances_putBack (s : Scene κ) (id : ComponentId) (component : κ) :
    s.Advances (s.putBack id component) :=
  s.advances_modifySlot id _ (fun _ => rfl) fun _ _ => ⟨rfl, rfl, fun hi => hi, .refl _⟩

variable [Named κ]

theorem Phase.advances_recover (s : Scene κ) (p : Phase κ) : s.Advances (p.recover s) := by
  cases p with
  | initializing id batch | joining id batch =>
    have hstop := Scene.Change.advances (Scene.change_stop s id .detached)
    exact ⟨hstop.slot, hstop.fresh, hstop.issued, hstop.seated⟩
  | _ => exact .of_slots rfl rfl

theorem Phase.advances_fail (s : Scene κ) (p : Phase κ) (id : ComponentId) (component : κ) :
    s.Advances (p.recover (s.putBack id component)) := by
  refine (s.advances_putBack id component).trans (p.advances_recover _) fun x hn => ?_
  rw [Scene.slot?_putBack, hn]
  rfl

/-- A slot goes on, or it is the one that the phase at hand drops. -/
theorem Step.advances {m m' : Moment κ} (hs : Step m m') :
    m.scene.Advances m'.scene ∨ ∃ slot, m.phase.dropped? = some slot ∧
      m'.scene = m.scene.dropSlot slot := by
  cases hs with
  | onward ho =>
    cases ho with
    | @hosted s j c => exact .inl (Scene.change_apply s c).advances
    | move => exact .inl (.of_slots rfl rfl)
    | act ha => exact ha.advances
    | @call p callback id s j slot hp h => exact .inl (s.advances_takeOut id)
    | @ask p self s j r => exact .inl (Scene.change_answer s self r).advances
    | @back p self s j component => exact .inl (s.advances_putBack _ component)
  | @fail p self s j component =>
    exact .inl (p.advances_fail s self.component component)

theorem Step.forward {m m' : Moment κ} (h : m.Sound) (hs : Step m m') :
    m.scene.Forward m'.scene := by
  rcases hs.advances with hadv | ⟨slot, _, heq⟩
  · exact hadv.forward
  · rw [heq]
    exact Scene.forward_dropSlot h.scene.registered slot

theorem Path.forward {m m' : Moment κ} (hm : m.Sound) (h : Path m m') :
    m.scene.Forward m'.scene := by
  induction h with
  | refl => exact fun _ a ha => ⟨a, ha, .refl a⟩
  | tail h hs ih => exact ih.trans (hs.forward (hm.along h))

inductive Course : List (Moment κ) → Moment κ → Prop where
  | start : Course [] ⟨.idle, none, {}, []⟩
  | step {past : List (Moment κ)} {m m' : Moment κ} (h : Course past m) (hs : Step m m') :
      Course (past ++ [m]) m'

namespace Course

theorem of_path {m : Moment κ} (h : Path ⟨.idle, none, {}, []⟩ m) : ∃ past, Course past m := by
  induction h with
  | refl => exact ⟨[], .start⟩
  | tail _ hs ih =>
    obtain ⟨past, hc⟩ := ih
    exact ⟨_, hc.step hs⟩

theorem path {past : List (Moment κ)} {m : Moment κ} (h : Course past m) :
    Path ⟨.idle, none, {}, []⟩ m := by
  induction h with
  | start => exact .refl
  | step _ hs ih => exact ih.tail hs

theorem sound {past : List (Moment κ)} {m : Moment κ} (h : Course past m) : m.Sound :=
  Moment.Sound.empty.along h.path

theorem forward {past : List (Moment κ)} {m : Moment κ} (h : Course past m) :
    (past ++ [m]).Pairwise fun m m' => m.scene.Forward m'.scene := by
  induction h with
  | start => exact List.pairwise_singleton _ _
  | @step past m m' h hs ih =>
    have hlast := hs.forward h.sound
    refine List.pairwise_append.2 ⟨ih, List.pairwise_singleton _ _, fun early hearly late hlate => ?_⟩
    rw [List.mem_singleton.1 hlate]
    rcases List.mem_append.1 hearly with hearly | hearly
    · exact ((List.pairwise_append.1 ih).2.2 early hearly m (List.mem_singleton_self _)).trans hlast
    · rw [List.mem_singleton.1 hearly]
      exact hlast

theorem all_sound {past : List (Moment κ)} {m : Moment κ} (h : Course past m) :
    ∀ m' ∈ past ++ [m], m'.Sound := by
  induction h with
  | start =>
    intro m' hm'
    rw [List.mem_singleton.1 hm']
    exact .empty
  | step h hs ih =>
    intro m' hm'
    rcases List.mem_append.1 hm' with hm' | hm'
    · exact ih m' hm'
    · rw [List.mem_singleton.1 hm']
      exact (h.step hs).sound

end Course

/-- These moments lie behind the history, the last one being where it ended or was cut off. -/
structure Passed (b : Behaviour κ ω) (w : ω) (ops : List (HostOp κ ω)) (past : List (Moment κ))
    (last : Moment κ) : Prop where
  course : Course past last
  scene : last.scene = (ending b w ops).2.scene
  journal : last.journal = (recording b w ops).2.world.2
  idle : (ending b w ops).1 = .ok () → last.phase = .idle ∧ last.calling = none

theorem exists_passed (b : Behaviour κ ω) (w : ω) (ops : List (HostOp κ ω)) :
    ∃ past last, Passed b w ops past last := by
  have herase := erase_recording b w ops
  obtain ⟨p, calling, hp, _, hidle⟩ := path_recording b w ops
  obtain ⟨past, hc⟩ := Course.of_path hp
  refine ⟨past, _, hc, ?_, rfl, fun hok => hidle ((congrArg Prod.fst herase).trans hok)⟩
  exact congrArg (fun σ => σ.2.scene) herase

end FrameChain
