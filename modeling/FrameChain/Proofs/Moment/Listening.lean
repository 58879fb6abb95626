import FrameChain.Component
import FrameChain.Proofs.Chain.Visits
import FrameChain.Proofs.Lifecycle

set_option autoImplicit false

namespace FrameChain

variable {κ δ ω α τ : Type}

def Scene.Retains (id : ComponentId) (s s' : Scene κ) : Prop :=
  ∀ t', s'.slot? id = some t' → (∃ t, s.slot? id = some t ∧ t'.component = t.component) ∧
    ∀ key, s'.bus.filter? key id = s.bus.filter? key id

namespace Scene

variable {id : ComponentId} {s s' : Scene κ}

theorem Retains.of_slots (hs : s'.slots = s.slots) (hb : s'.bus.topics = s.bus.topics) :
    s.Retains id s' := by
  intro t' ht'
  rw [slot?, hs] at ht'
  exact ⟨⟨t', ht', rfl⟩, fun key => Bus.filter?_congr hb key id⟩

theorem Retains.trans {s'' : Scene κ} (h : s.Retains id s') (h' : s'.Retains id s'') :
    s.Retains id s'' := by
  intro t'' ht''
  obtain ⟨⟨t', ht', hc'⟩, hf'⟩ := h' t'' ht''
  obtain ⟨⟨t, ht, hc⟩, hf⟩ := h t' ht'
  exact ⟨⟨t, ht, hc'.trans hc⟩, fun key => (hf' key).trans (hf key)⟩

theorem Retains.isDone (h : s.Retains id s') (hs : s.Advances s') (hd : s.isDone id = true) :
    s'.isDone id = true := by
  cases hs' : s'.slot? id with
  | none => exact isDone_of_no_slot hs'
  | some t' =>
    obtain ⟨⟨t, ht, -⟩, -⟩ := h t' hs'
    obtain ⟨t'', ht'', hadv⟩ := hs.slot id t ht
    cases hs'.symm.trans ht''
    rw [isDone_of_slot ht] at hd
    rw [isDone_of_slot hs']
    exact hadv.state.isDone hd

theorem retains_modifySlot (s : Scene κ) (x : ComponentId) (f : Slot κ → Slot κ)
    (hid : ∀ t, (f t).id = t.id) (hf : x = id → ∀ t, (f t).component = t.component) :
    s.Retains id (s.modifySlot x f) := by
  intro t' ht'
  rw [slot?_modifySlot s x id f hid] at ht'
  obtain ⟨t, ht, rfl⟩ := Option.map_eq_some_iff.mp ht'
  refine ⟨⟨t, ht, ?_⟩, fun _ => rfl⟩
  split
  · rename_i hx
    exact hf ((beq_iff_eq.mp hx).symm.trans (slot?_id ht)) t
  · rfl

theorem retains_setState (s : Scene κ) (x : ComponentId) (state : Lifecycle) :
    s.Retains id (s.setState x state) :=
  s.retains_modifySlot x _ (fun _ => rfl) fun _ _ => rfl

theorem retains_markStopped (s : Scene κ) (x : ComponentId) (ending : Ending) :
    s.Retains id (s.markStopped x ending) :=
  s.retains_modifySlot x _ (fun t => by split <;> rfl) fun _ t => by split <;> rfl

theorem retains_stop (s : Scene κ) (x : ComponentId) (ending : Ending) :
    s.Retains id (s.stop x ending).2 := by
  unfold stop
  cases s.slot? x with
  | none => exact .of_slots rfl rfl
  | some _ => exact s.retains_markStopped x ending

theorem retains_removeEntity (s : Scene κ) (x : EntityId) : s.Retains id (s.removeEntity x).2 := by
  unfold removeEntity
  split
  · exact .of_slots rfl rfl
  · split <;> exact .of_slots rfl rfl

theorem retains_subscribe (s : Scene κ) (key : String) {x : ComponentId} (hx : x ≠ id)
    (filter : Option Condition) : s.Retains id (s.subscribe key x filter).2 := by
  unfold subscribe
  split
  · exact .of_slots rfl rfl
  · intro t' ht'
    refine ⟨⟨t', ht', rfl⟩, fun k => ?_⟩
    rw [Bus.filter?_subscribe, if_neg fun heq => hx heq.2.symm]

theorem retains_unsubscribe {s : Scene κ} (h : s.bus.Tidy) (key : String) {x : ComponentId}
    (hx : x ≠ id) : s.Retains id (s.unsubscribe key x) := by
  intro t' ht'
  refine ⟨⟨t', ht', rfl⟩, fun k => ?_⟩
  exact (h.filter?_withdraw _ _ _ _).trans (if_neg fun heq => hx heq.2.symm)

def Gains (id : ComponentId) (component : κ) (s' : Scene κ) : Prop :=
  ∀ t', s'.slot? id = some t' → t'.component = some component

theorem retains_addComponent [Named κ] (s : Scene κ) (owner : EntityId) (component : κ) :
    s.Retains id (s.addComponent owner component).2 ∨
      (s.addComponent owner component).1 = .ok id ∧
        Gains id component (s.addComponent owner component).2 := by
  cases he : s.entity? owner with
  | none =>
    simp only [addComponent, he]
    exact .inl (.of_slots rfl rfl)
  | some e =>
    simp only [addComponent, he]
    cases hs : s.slot? id with
    | some t =>
      refine .inl fun t' ht' => ⟨⟨t, hs, ?_⟩, fun _ => rfl⟩
      change (s.slots ++ [_]).find? _ = _ at ht'
      have hfound : s.slots.find? (fun t => t.id == id) = some t := hs
      rw [List.find?_append, hfound, Option.some_or] at ht'
      cases ht'
      rfl
    | none =>
      by_cases hid : id = ⟨s.componentsIssued + 1⟩
      · subst hid
        refine .inr ⟨rfl, fun t' ht' => ?_⟩
        change (s.slots ++ [_]).find? _ = _ at ht'
        have hfound : s.slots.find? (fun t => t.id == ⟨s.componentsIssued + 1⟩) = none := hs
        rw [List.find?_append, hfound, Option.none_or, List.find?_singleton] at ht'
        split at ht'
        · cases ht'
          rfl
        · cases ht'
      · refine .inl fun t' ht' => ?_
        change (s.slots ++ [_]).find? _ = _ at ht'
        have hfound : s.slots.find? (fun t => t.id == id) = none := hs
        rw [List.find?_append, hfound, Option.none_or, List.find?_singleton] at ht'
        split at ht'
        · rename_i heq
          exact absurd (beq_iff_eq.mp heq).symm hid
        · cases ht'

end Scene

theorem Scene.isDone_modifySlot (s : Scene κ) (x id : ComponentId) (f : Slot κ → Slot κ)
    (hid : ∀ t, (f t).id = t.id) (hf : ∀ t, (f t).state = t.state) :
    (s.modifySlot x f).isDone id = s.isDone id := by
  have hslot := slot?_modifySlot s x id f hid
  cases hs : s.slot? id with
  | none =>
    rw [hs] at hslot
    rw [isDone_of_no_slot hslot, isDone_of_no_slot hs]
  | some t =>
    rw [hs] at hslot
    rw [isDone_of_slot hslot, isDone_of_slot hs]
    dsimp only
    split
    · rw [hf]
    · rfl

theorem Scene.isDone_takeOut (s : Scene κ) (x id : ComponentId) :
    (s.takeOut x).isDone id = s.isDone id :=
  s.isDone_modifySlot x id _ (fun _ => rfl) fun _ => rfl

theorem Scene.isDone_putBack (s : Scene κ) (x id : ComponentId) (component : κ) :
    (s.putBack x component).isDone id = s.isDone id :=
  s.isDone_modifySlot x id _ (fun _ => rfl) fun _ => rfl

theorem Act.retains {s s' : Scene κ} {p p' : Phase κ} {marks : Journal κ} (h : Act s p p' s' marks)
    (ht : s.bus.Tidy) (id : ComponentId) : s.Retains id s' := by
  cases h with
  | begin | resume => exact .of_slots rfl rfl
  | serve | pass => exact .of_slots rfl rfl
  | take _ hpop => exact .of_slots rfl ((Bus.pop?_eq_some_iff _ _ _).mp hpop).2
  | start => exact s.retains_modifySlot _ _ (fun _ => rfl) fun _ _ => rfl
  | initialized => exact s.retains_setState _ _
  | run => exact (s.retains_setState _ _).trans (.of_slots rfl rfl)
  | round =>
    intro t' ht'
    rw [Scene.slot?_detachDoomed] at ht'
    obtain ⟨t, hslot, rfl⟩ := Option.map_eq_some_iff.mp ht'
    refine ⟨⟨t, hslot, by split <;> rfl⟩, fun key => ?_⟩
    have hbus : s.detachDoomed.bus = s.bus := congrArg Prod.snd s.desk_detachDoomed
    rw [hbus]
  | @drop slot doomed rest =>
    intro t' ht'
    have hne : id ≠ slot.id := by
      rintro rfl
      rw [Scene.slot?_dropSlot_self] at ht'
      cases ht'
    rw [s.slot?_dropSlot slot hne] at ht'
    refine ⟨⟨t', ht', rfl⟩, fun key => ?_⟩
    exact (ht.filter?_withdraw _ _ _ _).trans (if_neg fun heq => hne heq.2)
  | @clear doomed =>
    intro t' ht'
    rw [Scene.slot?_clear] at ht'
    have hbus : (doomed.foldl Scene.removeIfEmpty s).bus = s.bus :=
      congrArg Prod.snd (s.desk_clear doomed)
    exact ⟨⟨t', ht', rfl⟩, fun key => by rw [hbus]⟩

theorem Phase.retains_recover (s : Scene κ) (p : Phase κ) (id : ComponentId) :
    s.Retains id (p.recover s) := by
  cases p with
  | initializing x batch | joining x batch =>
    exact (s.retains_stop x .detached).trans (.of_slots rfl rfl)
  | _ => exact .of_slots rfl rfl

theorem Act.isDone {s s' : Scene κ} {p p' : Phase κ} {marks : Journal κ} (h : Act s p p' s' marks)
    (ht : s.bus.Tidy) {id : ComponentId} (hd : s.isDone id = true) : s'.isDone id = true := by
  rcases h.advances with hadv | ⟨slot, _, rfl⟩
  · exact (h.retains ht id).isDone hadv hd
  · by_cases hid : id = slot.id
    · subst hid
      exact Scene.isDone_of_no_slot (s.slot?_dropSlot_self slot)
    · cases hs : s.slot? id with
      | none => exact Scene.isDone_of_no_slot ((s.slot?_dropSlot slot hid).trans hs)
      | some t =>
        rw [Scene.isDone_of_slot hs] at hd
        rw [Scene.isDone_of_slot ((s.slot?_dropSlot slot hid).trans hs)]
        exact hd

def Mark.introduced? [Named κ] (id : ComponentId) : Mark κ → Option κ
  | asked _ _ (.addComponent _ component) (.ok x) => if x = id then some component else none
  | hosted s (.addComponent owner component) =>
      match (s.addComponent owner component).1 with
      | .ok x => if x = id then some component else none
      | .error _ => none
  | _ => none

def Component.isFreshChain : Component δ ω α → Bool
  | chain c => !c.started && c.scratch.messageKey.isNone
  | _ => false

def Journal.Introduces [Named δ] (j : Journal (Component δ ω α)) (id : ComponentId) : Prop :=
  ∀ mark ∈ j, ∀ component, mark.introduced? id = some component → component.isFreshChain = true

/-- An edit of a chain as chains can be edited: an idle one may get other commands, and one that is
attached or has started stays as it is. -/
def Component.Edits (f : Component δ ω α → Component δ ω α) : Prop :=
  ∀ c, ∃ c', f (.chain c) = .chain c' ∧ Chain.Relisted c c' ∧
    ((c.started || c.attached) = true → c' = c)

/-- An operation on chains, as an edit of a component. Where it is refused nothing happens. -/
def Component.amend (f : Chain (Component δ ω α) ω α → Except Failure (Chain (Component δ ω α) ω α)) :
    Component δ ω α → Component δ ω α
  | chain c => chain ((f c).toOption.getD c)
  | other => other

def Chain.Amends (f : Chain κ ω α → Except Failure (Chain κ ω α)) : Prop :=
  ∀ c c', f c = .ok c' → c.ensureIdle = .ok () ∧ Relisted c c'

theorem Component.edits_amend
    {f : Chain (Component δ ω α) ω α → Except Failure (Chain (Component δ ω α) ω α)}
    (h : Chain.Amends f) : Edits (amend f) := by
  intro c
  cases hf : f c with
  | error failure => exact ⟨c, by rw [amend, hf]; rfl, .inl rfl, fun _ => rfl⟩
  | ok c' =>
    obtain ⟨hidle, hrelisted⟩ := h c c' hf
    refine ⟨c', by rw [amend, hf]; rfl, hrelisted, fun hbusy => ?_⟩
    obtain ⟨hs, ha⟩ := Chain.ensureIdle_ok.mp hidle
    rw [hs, ha] at hbusy
    cases hbusy

namespace Chain

theorem amends_removeLast : Amends (removeLast : Chain κ ω α → _) := fun _ _ => relisted_removeLast

theorem amends_join {join : Chain κ ω α → Chain κ ω α → Except Failure (Chain κ ω α × Chain κ ω α)}
    (h : ∀ {c d j e}, join c d = .ok (j, e) →
      (c.ensureIdle = .ok () ∧ Relisted c j) ∧ d.ensureIdle = .ok () ∧ Relisted d e)
    (d : Chain κ ω α) :
    Amends (fun c => (join c d).map Prod.fst) ∧ Amends fun e => (join d e).map Prod.snd := by
  have of_map_ok {t : Except Failure (Chain κ ω α × Chain κ ω α)}
      {f : Chain κ ω α × Chain κ ω α → Chain κ ω α} {c : Chain κ ω α} (ht : t.map f = .ok c) :
      ∃ j e, t = .ok (j, e) ∧ c = f (j, e) := by
    cases t with
    | error failure => cases ht
    | ok joined =>
      cases ht
      exact ⟨joined.1, joined.2, rfl, rfl⟩
  refine ⟨fun c c' hc => ?_, fun e e' he => ?_⟩
  · obtain ⟨j, e, hm, rfl⟩ := of_map_ok hc
    exact (h hm).1
  · obtain ⟨j, e, hm, rfl⟩ := of_map_ok he
    exact (h hm).2

end Chain

theorem Component.edits_operations (d : Chain (Component δ ω α) ω α) :
    Edits (amend Chain.removeLast : Component δ ω α → _) ∧
    Edits (amend fun c => (c.mergeWith d).map Prod.fst) ∧
    Edits (amend fun e => (d.mergeWith e).map Prod.snd) ∧
    Edits (amend fun c => (c.mergeAtBeginning d).map Prod.fst) ∧
    Edits (amend fun e => (d.mergeAtBeginning e).map Prod.snd) := by
  obtain ⟨hmerged, hdonor⟩ := Chain.amends_join Chain.relisted_mergeWith d
  obtain ⟨hmerged', hdonor'⟩ := Chain.amends_join Chain.relisted_mergeAtBeginning d
  exact ⟨edits_amend Chain.amends_removeLast, edits_amend hmerged, edits_amend hdonor,
    edits_amend hmerged', edits_amend hdonor'⟩

/-- The host leaves it to the component to subscribe itself. -/
def HostOp.Spares (id : ComponentId) : HostOp (Component δ ω α) ω → Prop
  | call (.subscribe _ component _) | call (.unsubscribe _ component) => component ≠ id
  | call (.editComponent component f) => component = id → Component.Edits f
  | _ => True

/-- A chain in its slot is as the journal tells, and has visited the wait that its cursor is on. -/
def Scene.Attended (s : Scene (Component δ ω α)) (id : ComponentId) (j : Journal (Component δ ω α)) :
    Prop :=
  ∀ t, s.slot? id = some t →
    ∃ c, t.component = some (.chain c) ∧ c.Attends id s j ∧ c.Poised id s

def Mark.Overheard (id : ComponentId) (before : Journal (Component δ ω α)) :
    Mark (Component δ ω α) → Prop
  | asked self s _ _ => self.component ≠ id → s.Attended id before
  | _ => True

structure Vigil (id : ComponentId) (σ : Setting (Component δ ω α) (ω × Journal (Component δ ω α))) :
    Prop where
  attended : σ.scene.Attended id σ.world.2
  /-- The host has not subscribed the component. -/
  unbidden : ∀ mark ∈ σ.world.2, ∀ key, mark.refilter? key id = none
  overheard : σ.world.2.Each (Mark.Overheard id)

theorem Chain.Attends.congr {c : Chain κ ω α} {id : ComponentId} {s s' : Scene κ} {j j' : Journal κ}
    (h : c.Attends id s j) (hj : j'.wait? id = j.wait? id)
    (hf : ∀ key, s'.bus.filter? key id = s.bus.filter? key id) : c.Attends id s' j' := by
  intro key hk
  rw [hj, hf]
  exact h key hk

theorem Chain.Poised.congr {c : Chain κ ω α} {id : ComponentId} {s s' : Scene κ} (h : c.Poised id s)
    (hd : s.isDone id = true → s'.isDone id = true) : c.Poised id s' :=
  fun hs hm => (h hs hm).imp_right hd

structure Mark.Aside (id : ComponentId) (mark : Mark (Component δ ω α)) : Prop where
  attend : ∀ wait, mark.attend id wait = wait
  refilter : ∀ key, mark.refilter? key id = none

namespace Vigil

variable {id : ComponentId} {s s' : Scene (Component δ ω α)} {w w' : ω}
  {j marks : Journal (Component δ ω α)}

theorem empty (w : ω) : Vigil id (⟨{}, w, []⟩ : Setting (Component δ ω α) (ω × Journal _)) :=
  ⟨nofun, List.forall_mem_nil _, .nil⟩

theorem unbidden_append (h : Vigil id ⟨s, w, j⟩) (hmarks : ∀ mark ∈ marks, mark.Aside id) :
    ∀ mark ∈ j ++ marks, ∀ key, mark.refilter? key id = none := by
  intro mark hmem key
  rcases List.mem_append.mp hmem with hmem | hmem
  · exact h.unbidden mark hmem key
  · exact (hmarks mark hmem).refilter key

theorem retain (h : Vigil id ⟨s, w, j⟩) (hs : s.Retains id s')
    (hd : s.isDone id = true → s'.isDone id = true) (hmarks : ∀ mark ∈ marks, mark.Aside id)
    (hover : Journal.Each (Mark.Overheard id) (j ++ marks)) : Vigil id ⟨s', w', j ++ marks⟩ := by
  have hwait : Journal.wait? (j ++ marks) id = j.wait? id :=
    Journal.wait?_append fun mark hmem => (hmarks mark hmem).attend
  refine ⟨fun t' ht' => ?_, h.unbidden_append hmarks, hover⟩
  obtain ⟨⟨t, ht, hcomponent⟩, hf⟩ := hs t' ht'
  obtain ⟨c, hc, hattends, hpoised⟩ := h.attended t ht
  exact ⟨c, hcomponent.trans hc, hattends.congr hwait hf, hpoised.congr hd⟩

theorem gain {component : Component δ ω α} (h : Vigil id ⟨s, w, j⟩) (hs : Scene.Gains id component s')
    (hfresh : component.isFreshChain = true) (hmarks : ∀ mark ∈ marks, mark.Aside id)
    (hover : Journal.Each (Mark.Overheard id) (j ++ marks)) : Vigil id ⟨s', w', j ++ marks⟩ := by
  refine ⟨fun t' ht' => ?_, h.unbidden_append hmarks, hover⟩
  cases component with
  | chain c =>
    obtain ⟨hstarted, hkey⟩ := (Bool.and_eq_true ..).mp hfresh
    rw [Bool.not_eq_true'] at hstarted
    exact ⟨c, hs t' ht', Chain.attends_of_none (Option.isNone_iff_eq_none.mp hkey),
      fun hs' => nomatch hstarted.symm.trans hs'⟩
  | driver d => cases hfresh
  | custom d => cases hfresh

end Vigil

section Others

variable {id : ComponentId} {s s' : Scene (Component δ ω α)} {w w' : ω}
  {j marks : Journal (Component δ ω α)}

theorem Act.aside {p p' : Phase (Component δ ω α)} (h : Act s p p' s' marks) :
    ∀ mark ∈ marks, mark.Aside id ∧ ∀ before, mark.Overheard id before := by
  cases h with
  | take | serve | pass =>
    intro mark hmem
    cases List.mem_singleton.mp hmem
    exact ⟨⟨fun _ => rfl, fun _ => rfl⟩, fun _ => trivial⟩
  | _ => exact List.forall_mem_nil _

theorem Vigil.act {p p' : Phase (Component δ ω α)} (h : Vigil id ⟨s, w, j⟩) (ht : s.bus.Tidy)
    (ha : Act s p p' s' marks) : Vigil id ⟨s', w, j ++ marks⟩ :=
  h.retain (ha.retains ht id) (ha.isDone ht) (fun mark hmem => (ha.aside mark hmem).1)
    (h.overheard.append fun mark hmem => (ha.aside mark hmem).2)

variable [Named δ]

theorem Scene.retains_answer {self : Caller} (ht : s.bus.Tidy) (hne : self.component ≠ id)
    (r : Request (Component δ ω α)) :
    s.Retains id (r.answer self s).2 ∨ ∃ component,
      (Mark.asked self s r (r.answer self s).1).introduced? id = some component ∧
        Scene.Gains id component (r.answer self s).2 := by
  cases r with
  | finish => exact .inl (s.retains_markStopped _ _)
  | addComponent owner component =>
    refine (s.retains_addComponent owner component).imp (fun h => h) fun ⟨hok, hgains⟩ => ?_
    refine ⟨component, ?_, hgains⟩
    simp only [Request.answer, hok]
    exact if_pos rfl
  | stop x ending => exact .inl (s.retains_stop x ending)
  | patchEntity => exact .inl (.of_slots rfl rfl)
  | removeEntity x => exact .inl (s.retains_removeEntity x)
  | send => exact .inl (.of_slots rfl rfl)
  | subscribe key filter => exact .inl (s.retains_subscribe key hne filter)
  | unsubscribe key => exact .inl (Scene.retains_unsubscribe ht key hne)

theorem Vigil.ask {self : Caller} {out starting : Option ComponentId} {batch : List ComponentId}
    (h : Vigil id ⟨s, w, j⟩) (hs : s.Sound out starting batch) (hne : self.component ≠ id)
    (r : Request (Component δ ω α)) (hnew : ∀ component,
      (Mark.asked self s r (r.answer self s).1).introduced? id = some component →
        component.isFreshChain = true) :
    Vigil id ⟨(r.answer self s).2, w, j ++ [.asked self s r (r.answer self s).1]⟩ := by
  have haside : ∀ mark ∈ [Mark.asked self s r (r.answer self s).1], mark.Aside id :=
    List.forall_mem_singleton.mpr ⟨Mark.attend_of_ne hne s r _, fun _ => rfl⟩
  have hover : Journal.Each (Mark.Overheard id) (j ++ [.asked self s r (r.answer self s).1]) :=
    h.overheard.concat fun _ => h.attended
  rcases Scene.retains_answer hs.tidy hne r with hretains | ⟨component, hin, hgains⟩
  · have hchange := s.change_answer self r
    exact h.retain hretains (hretains.isDone hchange.advances) haside hover
  · exact h.gain hgains (hnew component hin) haside hover

theorem Script.recorded_along {κ : Type} [Named κ] {P : Setting κ (ω × Journal κ) → Prop} {self : Caller}
    {out starting : Option ComponentId} {batch : List ComponentId} {j : Journal κ}
    (hask : ∀ (σ : Setting κ (ω × Journal κ)) r, σ.scene.Sound out starting batch → P σ →
      .asked self σ.scene r (r.answer self σ.scene).1 ∈ j →
        P ⟨(r.answer self σ.scene).2, σ.world.1,
          σ.world.2 ++ [.asked self σ.scene r (r.answer self σ.scene).1]⟩)
    (hstore : ∀ (σ : Setting κ (ω × Journal κ)) v, P σ → P ⟨σ.scene, v, σ.world.2⟩) (q : Script κ ω τ)
    {σ : Setting κ (ω × Journal κ)} (hs : σ.scene.Sound out starting batch) (h : P σ)
    (hj : ((q.recorded self).run self σ).2.world.2 <+: j) : P ((q.recorded self).run self σ).2 := by
  induction q generalizing σ with
  | done a => exact h
  | crash c => exact h
  | look next ih => exact ih _ hs h hj
  | ask r next ih =>
    refine ih _ (hs.change (σ.scene.change_answer self r)) (hask σ r hs h ?_) hj
    obtain ⟨marks, heq, -⟩ := (next (r.answer self σ.scene).1).marks_recorded self
      ⟨(r.answer self σ.scene).2, σ.world.1,
        σ.world.2 ++ [.asked self σ.scene r (r.answer self σ.scene).1]⟩
    refine hj.subset ?_
    have hmem := List.mem_append_left marks (List.mem_append_right σ.world.2
      (List.mem_singleton_self (Mark.asked self σ.scene r (r.answer self σ.scene).1)))
    rwa [← heq] at hmem
  | consult next ih => exact ih _ hs h hj
  | store v next ih => exact ih hs (hstore σ v h) hj

theorem Vigil.recorded {self : Caller} {out starting : Option ComponentId} {batch : List ComponentId}
    {σ : Setting (Component δ ω α) (ω × Journal (Component δ ω α))} (h : Vigil id σ)
    (hs : σ.scene.Sound out starting batch) (hne : self.component ≠ id)
    (q : Script (Component δ ω α) ω τ)
    (hnew : Journal.Introduces ((q.recorded self).run self σ).2.world.2 id) :
    Vigil id ((q.recorded self).run self σ).2 := by
  refine Script.recorded_along (P := fun σ => Vigil id σ) ?_ ?_ q hs h (List.prefix_refl _)
  · intro σ r hs h hmem
    exact h.ask hs hne r fun component hin => hnew _ hmem component hin
  · intro σ v h
    exact ⟨h.attended, h.unbidden, h.overheard⟩

omit [Named δ] in
theorem Chain.Attends.edit {c c' : Chain (Component δ ω α) ω α} (h : c.Attends id s j)
    (hr : Chain.Relisted c c') (hsame : (c.started || c.attached) = true → c' = c) :
    c'.Attends id s j := by
  cases hk : c.scratch.messageKey with
  | some key =>
    obtain ⟨_, _, _, _, hrests⟩ := h key hk
    obtain ⟨hl, -⟩ := Chain.live_opening hrests.ready
    rw [hsame (by rw [hl.started, Bool.true_or])]
    exact h
  | none =>
    refine Chain.attends_of_none ?_
    rcases hr with rfl | ⟨nodes, head, tail, rfl⟩ <;> exact hk

omit [Named δ] in
theorem Chain.Poised.edit {c c' : Chain (Component δ ω α) ω α} (h : c.Poised id s)
    (hr : Chain.Relisted c c') (hsame : (c.started || c.attached) = true → c' = c) :
    c'.Poised id s := by
  intro hs
  have hstarted : c.started = true := by
    rcases hr with rfl | ⟨nodes, head, tail, rfl⟩ <;> exact hs
  obtain rfl := hsame (by rw [hstarted, Bool.true_or])
  exact h hs

theorem Scene.retains_apply (ht : s.bus.Tidy) (c : HostCall (Component δ ω α))
    (hc : (HostOp.call c : HostOp _ ω).Spares id) :
    s.Retains id (c.apply s).2 ∨
      (∃ component, (Mark.hosted s c).introduced? id = some component ∧
        Scene.Gains id component (c.apply s).2) ∨
      ∃ f, c = .editComponent id f ∧ Component.Edits f := by
  cases c with
  | addEntity => exact .inl (.of_slots rfl rfl)
  | patchEntity => exact .inl (.of_slots rfl rfl)
  | removeEntity x => exact .inl (s.retains_removeEntity x)
  | addComponent owner component =>
    refine (s.retains_addComponent owner component).imp (fun h => h) fun ⟨hok, hgains⟩ =>
      .inl ⟨component, ?_, hgains⟩
    simp only [Mark.introduced?, hok, if_true]
  | stop x ending => exact .inl (s.retains_stop x ending)
  | send => exact .inl (.of_slots rfl rfl)
  | subscribe key x filter => exact .inl (s.retains_subscribe key hc filter)
  | unsubscribe key x => exact .inl (Scene.retains_unsubscribe ht key hc)
  | drainEvents => exact .inl (.of_slots rfl rfl)
  | editComponent x f =>
    by_cases hx : x = id
    · subst hx
      exact .inr (.inr ⟨f, rfl, hc rfl⟩)
    · exact .inl (s.retains_modifySlot x _ (fun _ => rfl) fun heq => absurd heq hx)

omit [Named δ] in
theorem Vigil.edit {f : Component δ ω α → Component δ ω α} (h : Vigil id ⟨s, w, j⟩)
    (hf : Component.Edits f) (hmarks : ∀ mark ∈ marks, mark.Aside id)
    (hover : Journal.Each (Mark.Overheard id) (j ++ marks)) :
    Vigil id ⟨s.modifySlot id fun t => { t with component := t.component.map f }, w', j ++ marks⟩ := by
  have hwait : Journal.wait? (j ++ marks) id = j.wait? id :=
    Journal.wait?_append fun mark hmem => (hmarks mark hmem).attend
  refine ⟨fun t' ht' => ?_, h.unbidden_append hmarks, hover⟩
  rw [Scene.slot?_modifySlot s id id _ fun _ => by rfl] at ht'
  obtain ⟨t, ht, rfl⟩ := Option.map_eq_some_iff.mp ht'
  obtain ⟨c, hc, hattends, hpoised⟩ := h.attended t ht
  obtain ⟨c', hedited, hrelisted, hsame⟩ := hf c
  refine ⟨c', ?_, (hattends.edit hrelisted hsame).congr hwait fun _ => rfl,
    (hpoised.edit hrelisted hsame).congr fun hd => ?_⟩
  · rw [if_pos (beq_iff_eq.mpr (Scene.slot?_id ht)), hc, Option.map_some, hedited]
  · exact (s.isDone_modifySlot id id (fun t => { t with component := t.component.map f })
      (fun _ => rfl) fun _ => rfl).trans hd

theorem Vigil.apply {out starting : Option ComponentId} {batch : List ComponentId}
    (h : Vigil id ⟨s, w, j⟩) (hs : s.Sound out starting batch) (c : HostCall (Component δ ω α))
    (hc : (HostOp.call c : HostOp _ ω).Spares id)
    (hnew : ∀ component, (Mark.hosted s c).introduced? id = some component →
      component.isFreshChain = true) :
    Vigil id ⟨(c.apply s).2, w, j ++ [.hosted s c]⟩ := by
  have haside : ∀ mark ∈ [Mark.hosted s c], mark.Aside id := by
    refine List.forall_mem_singleton.mpr ⟨fun _ => rfl, fun key => ?_⟩
    cases c with
    | subscribe k x filter => exact if_neg fun heq => hc heq.2.symm
    | _ => rfl
  have hover : Journal.Each (Mark.Overheard id) (j ++ [.hosted s c]) := h.overheard.concat trivial
  rcases Scene.retains_apply hs.tidy c hc with hretains | ⟨component, hin, hgains⟩ | ⟨f, rfl, hedit⟩
  · have hchange := Scene.change_apply s c
    exact h.retain hretains (hretains.isDone hchange.advances) haside hover
  · exact h.gain hgains (hnew component hin) haside hover
  · exact h.edit hedit haside hover

end Others

def Station.enter (g : Station κ ω) (callback : Callback) (self : Caller) :
    Setting κ (ω × Journal κ) :=
  ⟨g.setting.scene.takeOut self.component, g.setting.world.1,
    g.setting.world.2 ++ [.called callback self (g.setting.scene.takeOut self.component)]⟩

theorem Station.seats_enter {g : Station κ ω} {self : Caller} {t : Slot κ} (hg : g.moment.Sound)
    (ht : g.setting.scene.slot? self.component = some t) (callback : Callback) :
    (g.enter callback self).scene.Seats self.component := by
  refine ⟨hg.scene.tidy, ?_⟩
  rw [enter, Scene.takeOut, Scene.slot?_modifySlot_self ht _ fun _ => by rfl]
  rfl

theorem Station.wait?_enter (g : Station κ ω) {callback : Callback} (h : ∀ m, callback ≠ .message m)
    (self : Caller) (id : ComponentId) :
    (g.enter callback self).world.2.wait? id = g.setting.world.2.wait? id := by
  refine Journal.wait?_append (List.forall_mem_singleton.mpr fun wait => ?_)
  cases callback with
  | message m => exact absurd rfl (h m)
  | _ => rfl

/-- The step of the chain that is due has come so far, with rounds that have all gone on. -/
structure Station.Paced [Named δ] (host : Host δ ω α) (g : Station (Component δ ω α) ω)
    (caller : Caller) (delta absolute : Seconds) (n : Nat) (c : Chain (Component δ ω α) ω α)
    (σ : Setting (Component δ ω α) (ω × Journal (Component δ ω α))) : Prop where
  due : ∃ rest, g.phase = .ticking delta absolute caller.component rest
  begun : ∃ slot c₀ d, g.setting.scene.slot? caller.component = some slot ∧
    slot.owner = caller.entity ∧ slot.component = some (.chain c₀) ∧ c₀.opening = .ok d ∧
    (ChainRun.pace host.act caller absolute n).play caller d (g.enter (.update delta absolute) caller) =
      (.ok (.ok true, c), σ)

section Callbacks

variable [Named δ] {host : Host δ ω α} {fuel : Nat} {id : ComponentId} {self : Caller}
  {g g' : Station (Component δ ω α) ω} {σ : Setting (Component δ ω α) (ω × Journal (Component δ ω α))}

theorem Component.run_recorded_chain (callback : Callback) (self : Caller)
    (c : Chain (Component δ ω α) ω α) (σ : Setting (Component δ ω α) (ω × Journal (Component δ ω α))) :
    ((Component.behaviour host fuel callback self (.chain c)).recorded self).run self σ =
      let after := ((Chain.behaviour host.act fuel callback self c).recorded self).run self σ
      (after.1.map fun e => (e.1, .chain e.2), after.2) := by
  change (((Chain.behaviour host.act fuel callback self c).bind _).recorded self).run self σ = _
  rw [Script.recorded_bind, Script.run_bind]
  cases ((Chain.behaviour host.act fuel callback self c).recorded self).run self σ with
  | mk answer σ' => cases answer <;> rfl

theorem Moment.Admitting.honours {m : Moment κ} (h : m.Admitting) (hc : m.calling = none)
    {message : Message} {id : ComponentId} (hp : m.phase.callee = some (.message message, id))
    (hj : ∀ mark ∈ m.journal, ∀ key, mark.refilter? key id = none) : m.scene.Honours message id := by
  obtain ⟨p, calling, s, j⟩ := m
  cases hc
  cases p with
  | reaching late m r rest =>
    cases hp
    obtain ⟨early, s₀, d, between, heq, hsince, haccepting⟩ := h.due message r rfl
    have hfilter := hsince.filter?_eq haccepting
    have hnone : between.refiltered message.key r.component = none := by
      have hnil : between.filterMap (Mark.refilter? message.key r.component) = [] :=
        List.filterMap_eq_nil_iff.mpr fun mark hmem => hj mark (heq ▸ by simp [hmem]) _
      rw [Journal.refiltered, hnil, List.getLast?_nil]
    rw [hnone, Option.getD_none] at hfilter
    exact ⟨r.filter, hfilter, haccepting.admitted⟩
  | ending slot doomed rest =>
    simp only [Phase.callee] at hp
    split at hp <;> cases hp
  | _ => cases hp

omit [Named δ] in
theorem Chain.Attends.enter {c : Chain (Component δ ω α) ω α} {callback : Callback}
    {t : Slot (Component δ ω α)} (h : c.Attends self.component g.setting.scene g.setting.world.2)
    (hg : g.moment.Sound) (ht : g.setting.scene.slot? self.component = some t)
    (hm : ∀ m, callback ≠ .message m) : c.Tends self.component (g.enter callback self) :=
  ⟨Station.seats_enter hg ht callback, h.congr (g.wait?_enter hm self self.component) fun _ => rfl⟩

theorem tended_call {c : Chain (Component δ ω α) ω α} {callback : Callback} (hg : g.moment.Sound)
    (ha : g.moment.Admitting) (h : Vigil self.component g.setting)
    (hdue : g.phase.callee = some (callback, self.component))
    (hc : c.Attends self.component g.setting.scene g.setting.world.2)
    (hp : c.Poised self.component g.setting.scene) {t : Slot (Component δ ω α)}
    (ht : g.setting.scene.slot? self.component = some t) :
    Chain.Tended self.component
      (((Chain.behaviour host.act fuel callback self c).recorded self).run self
        (g.enter callback self)) := by
  have hdone := g.setting.scene.isDone_takeOut self.component self.component
  have hpoised : c.Poised self.component (g.enter callback self).scene := hp.congr hdone.trans
  by_cases hm : ∃ m, callback = .message m
  · obtain ⟨m, rfl⟩ := hm
    have hseen : c.Attends self.component (g.enter (.message m) self).scene g.setting.world.2 :=
      hc.congr rfl fun _ => rfl
    exact ChainRun.tended_notice (Station.seats_enter hg ht _) hseen hpoised rfl
      ((ha.honours rfl hdue h.unbidden).takeOut self.component)
  · have hquiet : ∀ m, callback ≠ .message m := fun m heq => hm ⟨m, heq⟩
    exact ChainRun.tended_behaviour (hc.enter hg ht hquiet) hpoised fuel callback hquiet

theorem Station.Plays.recorded {b : Behaviour κ ω} [Named κ] {g : Station κ ω} {callback : Callback}
    {component : κ} {outcome : Except Crash (Except Failure Unit × κ)}
    {σ : Setting κ (ω × Journal κ)} (h : g.Plays b callback self component outcome σ) :
    ((b callback self component).recorded self).run self (g.enter callback self) = (outcome, σ) := h.run

theorem Vigil.plays_other {callback : Callback} {component : Component δ ω α}
    {outcome : Except Crash (Except Failure Unit × Component δ ω α)} (h : Vigil id g.setting)
    (hg : g.moment.Sound) (hne : self.component ≠ id)
    (hp : g.Plays (Component.behaviour host fuel) callback self component outcome σ)
    (hnew : σ.world.2.Introduces id) : Vigil id σ := by
  have haside : ∀ mark ∈ [Mark.called callback self (g.setting.scene.takeOut self.component)],
      mark.Aside id := by
    refine List.forall_mem_singleton.mpr ⟨fun wait => ?_, fun _ => rfl⟩
    cases callback with
    | message m => exact if_neg hne
    | _ => rfl
  have henter : Vigil id (g.enter callback self) :=
    h.retain (g.setting.scene.retains_modifySlot _ _ (fun _ => rfl) fun heq => absurd heq hne)
      (g.setting.scene.isDone_takeOut _ id).trans haside (h.overheard.concat trivial)
  obtain rfl : (((Component.behaviour host fuel callback self component).recorded self).run self
    (g.enter callback self)).2 = σ := congrArg Prod.snd hp.recorded
  exact henter.recorded (hg.scene.takeOut self.component) hne _ hnew

theorem Vigil.plays_self {callback : Callback} {component : Component δ ω α}
    {outcome : Except Crash (Except Failure Unit × Component δ ω α)}
    (h : Vigil self.component g.setting) (hg : g.moment.Sound) (ha : g.moment.Admitting)
    (hp : g.Plays (Component.behaviour host fuel) callback self component outcome σ) :
    (∀ mark ∈ σ.world.2, ∀ key, mark.refilter? key self.component = none) ∧
      σ.world.2.Each (Mark.Overheard self.component) ∧
      ∀ answer component', outcome = .ok (answer, component') →
        Vigil self.component { σ with scene := σ.scene.putBack self.component component' } := by
  obtain ⟨t, ht, -, hcomponent⟩ := hp.seat
  obtain ⟨c, hc, hattends, hpoised⟩ := h.attended t ht
  obtain rfl := Option.some.inj (hcomponent.symm.trans hc)
  have hrun := hp.recorded
  obtain ⟨marks, hmarks, hasked⟩ :=
    (Component.behaviour host fuel callback self (.chain c)).marks_recorded self (g.enter callback self)
  rw [hrun] at hmarks
  have hunbidden : ∀ mark ∈ σ.world.2, ∀ key, mark.refilter? key self.component = none := by
    intro mark hmem key
    rw [hmarks] at hmem
    rcases List.mem_append.mp hmem with hmem | hmem
    · rcases List.mem_append.mp hmem with hmem | hmem
      · exact h.unbidden mark hmem key
      · rw [List.mem_singleton.mp hmem]
        rfl
    · obtain ⟨s, r, reply, rfl⟩ := hasked mark hmem
      rfl
  -- A component overhears nothing that it asks for itself.
  have hoverheard : σ.world.2.Each (Mark.Overheard self.component) := by
    rw [hmarks]
    have hcalled : (g.enter callback self).world.2.Each (Mark.Overheard self.component) :=
      h.overheard.concat trivial
    refine hcalled.append fun mark hmem before => ?_
    obtain ⟨s, r, reply, rfl⟩ := hasked mark hmem
    exact fun hne => absurd rfl hne
  refine ⟨hunbidden, hoverheard, ?_⟩
  rintro answer component' rfl
  have htended : Chain.Tended self.component
      (((Chain.behaviour host.act fuel callback self c).recorded self).run self
        (g.enter callback self)) :=
    tended_call hg ha h hp.due hattends hpoised ht
  rw [Component.run_recorded_chain] at hrun
  cases hplay : ((Chain.behaviour host.act fuel callback self c).recorded self).run self
      (g.enter callback self) with
  | mk e σ' =>
    rw [hplay] at hrun htended
    cases e with
    | error crash => cases hrun
    | ok e =>
      obtain ⟨answer', d⟩ := e
      cases hrun
      obtain ⟨u, hu⟩ := Option.isSome_iff_exists.mp htended.1.seats.slot
      refine ⟨fun t' ht' => ⟨d, ?_, htended.1.attends.congr rfl fun _ => rfl,
        htended.2.congr (Scene.isDone_putBack _ _ _ _).trans⟩, hunbidden, hoverheard⟩
      rw [Scene.slot?_putBack, hu, Option.map_some,
        if_pos (beq_iff_eq.mpr (Scene.slot?_id hu))] at ht'
      cases ht'
      rfl

theorem Vigil.answered {callback : Callback} {component component' : Component δ ω α}
    {answer : Except Failure Unit} (h : Vigil id g.setting) (hg : g.moment.Sound)
    (ha : g.moment.Admitting)
    (hp : g.Plays (Component.behaviour host fuel) callback self component (.ok (answer, component')) σ)
    (hnew : σ.world.2.Introduces id) :
    Vigil id ⟨σ.scene.putBack self.component component', σ.world.1, σ.world.2⟩ := by
  by_cases hid : self.component = id
  · subst hid
    exact (h.plays_self hg ha hp).2.2 _ _ rfl
  · have hother : Vigil id ⟨σ.scene.putBack self.component component', σ.world.1, σ.world.2 ++ []⟩ := by
      refine (h.plays_other hg hid hp hnew).retain ?_
        (σ.scene.isDone_putBack _ id _).trans (List.forall_mem_nil _) ?_
      · exact σ.scene.retains_modifySlot _ _ (fun _ => rfl) fun heq => absurd heq hid
      · rw [List.append_nil]
        exact (h.plays_other hg hid hp hnew).overheard
    rwa [List.append_nil] at hother

theorem Journal.Introduces.of_prefix {j j' : Journal (Component δ ω α)} (h : j'.Introduces id)
    (hp : j <+: j') : j.Introduces id :=
  fun mark hmem => h mark (hp.subset hmem)

variable {ops : List (HostOp (Component δ ω α) ω)}

theorem Vigil.leg (h : Vigil id g.setting) (hg : g.moment.Sound) (ha : g.moment.Admitting)
    (hops : ∀ op ∈ ops, op.Spares id) (hl : Leg (Component.behaviour host fuel) ops g g')
    (hnew : g'.setting.world.2.Introduces id) :
    Vigil id g'.setting := by
  cases hl with
  | stride hs =>
    cases hs with
    | move => exact h
    | act hdone => exact Vigil.act h hg.scene.tidy hdone
    | called hp => exact h.answered hg ha hp hnew
  | fall hf =>
    cases hf with
    | @failed callback self component component' σ hp =>
      have hback := h.answered hg ha hp (hnew.of_prefix (List.prefix_append _ _))
      have haside : ∀ mark ∈ g.phase.losses, mark.Aside id ∧ ∀ before, mark.Overheard id before := by
        cases g.phase with
        | ending | removing =>
          exact List.forall_mem_singleton.mpr ⟨⟨fun _ => rfl, fun _ => rfl⟩, fun _ => trivial⟩
        | _ => exact List.forall_mem_nil _
      have hretains := g.phase.retains_recover (σ.scene.putBack self.component component') id
      have hadvances := g.phase.advances_recover (σ.scene.putBack self.component component')
      exact hback.retain hretains (hretains.isDone hadvances)
        (fun mark hmem => (haside mark hmem).1)
        (hback.overheard.append fun mark hmem => (haside mark hmem).2)
  | @hosted σ c hc =>
    refine Vigil.apply h hg.scene c (hops _ hc) fun component hin => ?_
    exact hnew _ (List.mem_append_right _ (List.mem_singleton_self _)) component hin
  | edited f _ => exact ⟨h.attended, h.unbidden, h.overheard⟩

theorem vigil_trail {w : ω} {past : List (Station (Component δ ω α) ω)}
    (h : Trail (Component.behaviour host fuel) ops ⟨.idle, {}, w, []⟩ past g)
    (hops : ∀ op ∈ ops, op.Spares id) (hnew : g.setting.world.2.Introduces id) :
    ∀ g' ∈ past ++ [g], g'.moment.Sound ∧ Vigil id g'.setting := by
  induction h with
  | start =>
    intro g' hmem
    rw [List.mem_singleton.mp hmem]
    exact ⟨.empty, .empty w⟩
  | @step past g g' htrail hleg ih =>
    have hlast := List.mem_append_right past (List.mem_singleton_self g)
    have hbefore := ih (hnew.of_prefix hleg.path.journal)
    obtain ⟨hsound, hvigil⟩ := hbefore g hlast
    obtain ⟨moments, hcourse⟩ := Course.of_path htrail.path
    have hnext := hvigil.leg hsound hcourse.admitting hops hleg hnew
    intro g'' hmem
    rcases List.mem_append.mp hmem with hmem | hmem
    · exact hbefore g'' hmem
    · rw [List.mem_singleton.mp hmem]
      exact ⟨hsound.along hleg.path, hnext⟩

end Callbacks

end FrameChain
