import FrameChain.Proofs.Moment.Periods

set_option autoImplicit false

namespace FrameChain

variable {κ ω : Type}

def Mark.tick? : Mark κ → Option ComponentId
  | called (.update ..) self _ => some self.component
  | _ => none

namespace Journal

variable {marks more : Journal κ} {id : ComponentId} {turned : List ComponentId}

def ticks (j : Journal κ) : List ComponentId := j.filterMap Mark.tick?

theorem ticks_append (j marks : Journal κ) : ticks (j ++ marks) = ticks j ++ ticks marks :=
  List.filterMap_append

/-- A callback of a component before this one has asked to stop it. -/
def StopsEarly (marks : Journal κ) (id : ComponentId) : Prop :=
  ∃ self s r reply ending, Mark.asked self s r reply ∈ marks ∧ r.stop? self = some (id, ending) ∧
    self.component.val < id.val

theorem StopsEarly.asksStop (h : marks.StopsEarly id) : marks.AsksStop id := by
  obtain ⟨self, s, r, reply, ending, hmem, hstop, -⟩ := h
  exact ⟨self, s, r, reply, ending, hmem, hstop⟩

theorem AsksStop.early (h : marks.AsksStop id)
    (hall : ∀ self s r reply, Mark.asked self s r reply ∈ marks → self.component.val < id.val) :
    marks.StopsEarly id := by
  obtain ⟨self, s, r, reply, ending, hmem, hstop⟩ := h
  exact ⟨self, s, r, reply, ending, hmem, hstop, hall self s r reply hmem⟩

theorem asksStop_append_iff :
    (marks ++ more : Journal κ).AsksStop id ↔ marks.AsksStop id ∨ more.AsksStop id := by
  constructor
  · rintro ⟨self, s, r, reply, ending, hmem, hstop⟩
    rcases List.mem_append.mp hmem with hmem | hmem
    · exact .inl ⟨self, s, r, reply, ending, hmem, hstop⟩
    · exact .inr ⟨self, s, r, reply, ending, hmem, hstop⟩
  · rintro (⟨self, s, r, reply, ending, hmem, hstop⟩ | ⟨self, s, r, reply, ending, hmem, hstop⟩)
    · exact ⟨self, s, r, reply, ending, List.mem_append_left _ hmem, hstop⟩
    · exact ⟨self, s, r, reply, ending, List.mem_append_right _ hmem, hstop⟩

theorem stopsEarly_append_iff
    (hlate : ∀ self s r reply, Mark.asked self s r reply ∈ more → id.val ≤ self.component.val) :
    (marks ++ more : Journal κ).StopsEarly id ↔ marks.StopsEarly id := by
  constructor
  · rintro ⟨self, s, r, reply, ending, hmem, hstop, hlt⟩
    rcases List.mem_append.mp hmem with hmem | hmem
    · exact ⟨self, s, r, reply, ending, hmem, hstop, hlt⟩
    · exact absurd hlt (Nat.not_lt.mpr (hlate self s r reply hmem))
  · rintro ⟨self, s, r, reply, ending, hmem, hstop, hlt⟩
    exact ⟨self, s, r, reply, ending, List.mem_append_left _ hmem, hstop, hlt⟩

/-- Each of these had one turn, and was updated at it unless it was stopped before. -/
structure TakesTurns (marks : Journal κ) (turned : List ComponentId) : Prop where
  order : marks.ticks.Sublist turned
  spared : ∀ id ∈ turned, id ∈ marks.ticks ↔ ¬ marks.StopsEarly id

namespace TakesTurns

theorem nil : TakesTurns ([] : Journal κ) [] := ⟨.refl _, fun _ h => absurd h List.not_mem_nil⟩

theorem quiet (h : marks.TakesTurns turned) (hticks : more.ticks = [])
    (hlate : ∀ id ∈ turned, ∀ self s r reply, Mark.asked self s r reply ∈ more →
      id.val ≤ self.component.val) : (marks ++ more : Journal κ).TakesTurns turned := by
  have hsame : (marks ++ more : Journal κ).ticks = marks.ticks := by
    rw [ticks_append, hticks, List.append_nil]
  refine ⟨hsame ▸ h.order, fun id hid => ?_⟩
  rw [hsame, stopsEarly_append_iff (hlate id hid)]
  exact h.spared id hid

theorem skip (h : marks.TakesTurns turned) (hid : id ∉ turned) (hstopped : marks.StopsEarly id) :
    marks.TakesTurns (turned ++ [id]) := by
  refine ⟨h.order.trans (List.sublist_append_left _ _), fun x hx => ?_⟩
  rcases List.mem_append.mp hx with hx | hx
  · exact h.spared x hx
  · obtain rfl := List.mem_singleton.mp hx
    exact ⟨fun hticked => absurd (h.order.subset hticked) hid, fun hspared => absurd hstopped hspared⟩

theorem call (h : marks.TakesTurns turned) {self : Caller} (hid : self.component ∉ turned)
    (hspared : ¬ marks.StopsEarly self.component) (delta absolute : Seconds) (s : Scene κ) :
    (marks ++ [.called (.update delta absolute) self s] : Journal κ).TakesTurns
      (turned ++ [self.component]) := by
  have hticks : (marks ++ [.called (.update delta absolute) self s] : Journal κ).ticks =
      marks.ticks ++ [self.component] := ticks_append _ _
  refine ⟨hticks ▸ h.order.append (.refl _), fun x hx => ?_⟩
  rw [hticks, stopsEarly_append_iff fun _ _ _ _ hmem => by cases List.mem_singleton.mp hmem]
  rcases List.mem_append.mp hx with hx | hx
  · have hne : x ∉ [self.component] := fun hmem => hid (List.mem_singleton.mp hmem ▸ hx)
    rw [List.mem_append, or_iff_left hne]
    exact h.spared x hx
  · rw [List.mem_singleton.mp hx]
    exact ⟨fun _ => hspared, fun _ => List.mem_append_right _ (List.mem_singleton_self _)⟩

end TakesTurns

end Journal

namespace Scene

variable {s s' : Scene κ} {marks more : Journal κ} {id : ComponentId}

theorem mem_running_iff (h : s.registry.Consistent) :
    id ∈ s.running ↔ s.lifecycle? id = some .running := by
  constructor
  · intro hid
    obtain ⟨t, ht, rfl⟩ := List.mem_map.mp hid
    obtain ⟨hmem, hrun⟩ := List.mem_filter.mp ht
    rw [lifecycle?_of_slot ((slot?_eq_some_iff h).mpr ⟨hmem, rfl⟩), of_decide_eq_true hrun]
  · intro hrun
    rcases lifecycle?_cases hrun with ⟨t, ht, hstate⟩ | ⟨-, -, hremoved⟩
    · exact List.mem_map.mpr
        ⟨t, List.mem_filter.mpr ⟨slot?_mem ht, decide_eq_true hstate⟩, slot?_id ht⟩
    · cases hremoved

theorem running_sorted (h : s.registry.Consistent) : s.running.Pairwise fun a b => a.val < b.val :=
  List.pairwise_map.mpr ((List.pairwise_map.mp h.slots_sorted).filter _)

/-- The component runs, unless it was to be stopped: then it has stopped. -/
def Heeds (s : Scene κ) (marks : Journal κ) (id : ComponentId) : Prop :=
  ∃ t, s.slot? id = some t ∧
    (t.state = .running ∧ ¬ marks.AsksStop id ∨ t.state.isDone = true ∧ marks.AsksStop id)

namespace Heeds

theorem running_iff (h : s.Heeds marks id) : s.lifecycle? id = some .running ↔ ¬ marks.AsksStop id := by
  obtain ⟨t, ht, ⟨hrun, hspared⟩ | ⟨hdone, hstopped⟩⟩ := h
  · rw [lifecycle?_of_slot ht, hrun]
    exact ⟨fun _ => hspared, fun _ => rfl⟩
  · rw [lifecycle?_of_slot ht]
    refine ⟨fun hrun => ?_, fun hspared => absurd hstopped hspared⟩
    rw [Option.some.inj hrun] at hdone
    cases hdone

theorem start (h : s.lifecycle? id = some .running) : s.Heeds [] id := by
  rcases lifecycle?_cases h with ⟨t, ht, hrun⟩ | ⟨-, -, hremoved⟩
  · exact ⟨t, ht, .inl ⟨hrun, fun ⟨_, _, _, _, _, hmem, _⟩ => absurd hmem List.not_mem_nil⟩⟩
  · cases hremoved

theorem modifySlot (h : s.Heeds marks id) (hmore : ¬ more.AsksStop id) (x : ComponentId)
    (f : Slot κ → Slot κ) (hid : ∀ t, (f t).id = t.id) (hf : ∀ t, (f t).state = t.state) :
    (s.modifySlot x f).Heeds (marks ++ more) id := by
  obtain ⟨t, ht, hstate⟩ := h
  obtain ⟨t', ht'⟩ : ∃ t', (s.modifySlot x f).slot? id = some t' := by
    rw [slot?_modifySlot s x id f hid, ht]
    exact ⟨_, rfl⟩
  refine ⟨t', ht', ?_⟩
  rw [state_of_modifySlot hid hf ht ht', Journal.asksStop_append_iff, or_iff_left hmore]
  exact hstate

theorem answer [Named κ] (h : s.Heeds marks id) (self : Caller) (r : Request κ) (reply : r.Reply) :
    (r.answer self s).2.Heeds (marks ++ [.asked self s r reply]) id := by
  obtain ⟨t, ht, hstate⟩ := h
  obtain ⟨t', ht', hevolves⟩ := (change_answer s self r).later.slot id t ht
  refine ⟨t', ht', ?_⟩
  have hdone : t.state.isDone = true → t'.state.isDone = true := hevolves.advances.state.isDone
  by_cases hasks : ∃ ending, r.stop? self = some (id, ending)
  · obtain ⟨ending, hstop⟩ := hasks
    refine .inr ⟨?_, self, s, r, reply, ending, List.mem_append_right _ (List.mem_singleton_self _), hstop⟩
    rcases hstate with ⟨hrun, -⟩ | ⟨hd, -⟩
    · rw [answer_of_stop? hstop ht] at ht'
      rw [state_of_markStopped ht (hrun ▸ rfl) ht', if_pos rfl]
      exact Lifecycle.ending_isDone ending
    · exact hdone hd
  · have hother : ¬ Journal.AsksStop [.asked self s r reply] id := by
      rintro ⟨_, _, _, _, ending, hmem, hstop⟩
      cases List.mem_singleton.mp hmem
      exact hasks ⟨ending, hstop⟩
    rw [Journal.asksStop_append_iff, or_iff_left hother]
    refine hstate.imp (fun ⟨hrun, hspared⟩ => ⟨?_, hspared⟩) fun ⟨hd, hstopped⟩ => ⟨hdone hd, hstopped⟩
    have hnone : ∀ ending, r.stop? self ≠ some (id, ending) := fun ending hstop => hasks ⟨ending, hstop⟩
    exact (state_of_answer hnone ht (hrun ▸ rfl) ht').trans hrun

end Heeds

end Scene

namespace Moment

def unserved (m : Moment κ) : List ComponentId :=
  match m.phase, m.calling with
  | .updating _ _ rest, _ => rest
  | .ticking _ _ id rest, none => id :: rest
  | .ticking _ _ _ rest, some _ => rest
  | _, _ => []

/-- These components were to have a turn when the journal was this. Some had it since then, and the others
run still, but for those whose stop was asked for. -/
structure Rota (ids turned : List ComponentId) (j₀ marks : Journal κ) (m : Moment κ) : Prop where
  split : ids = turned ++ m.unserved
  journal : m.journal = j₀ ++ marks
  turns : marks.TakesTurns turned
  askers : ∀ self s r reply, Mark.asked self s r reply ∈ marks → self.component ∈ turned
  waiting : ∀ id ∈ m.unserved, m.scene.Heeds marks id
  caller : ∀ self, m.calling = some self →
    turned.getLast? = some self.component ∧ marks.ticks.getLast? = some self.component

end Moment

theorem le_of_getLast? {ids : List ComponentId} (hsorted : ids.Pairwise fun a b => a.val < b.val)
    {last : ComponentId} (h : ids.getLast? = some last) {id : ComponentId} (hid : id ∈ ids) :
    id.val ≤ last.val := by
  obtain ⟨before, rfl⟩ := List.getLast?_eq_some_iff.mp h
  rcases List.mem_append.mp hid with hid | hid
  · exact Nat.le_of_lt ((List.pairwise_append.mp hsorted).2.2 id hid last (List.mem_singleton_self _))
  · rw [List.mem_singleton.mp hid]

namespace Moment.Rota

variable {ids turned rest : List ComponentId} {j₀ j marks : Journal κ} {m m' : Moment κ} {s s' : Scene κ}
  {id : ComponentId} {self : Caller} {p p' : Phase κ} {delta absolute : Seconds}

theorem start (h : ∀ id ∈ m.unserved, m.scene.lifecycle? id = some .running) (hm : m.calling = none) :
    m.Rota m.unserved [] m.journal [] := by
  refine ⟨rfl, (List.append_nil _).symm, .nil, fun _ _ _ _ hmem => absurd hmem List.not_mem_nil,
    fun id hid => .start (h id hid), fun self hself => ?_⟩
  cases hm.symm.trans hself

theorem head_lt (hsorted : ids.Pairwise fun a b => a.val < b.val) (h : m.Rota ids turned j₀ marks)
    (hid : m.unserved = id :: rest) : ∀ x ∈ turned, x.val < id.val := by
  have hids := h.split
  rw [hid] at hids
  rw [hids] at hsorted
  exact fun x hx => (List.pairwise_append.mp hsorted).2.2 x hx id List.mem_cons_self

theorem not_mem_head (hsorted : ids.Pairwise fun a b => a.val < b.val) (h : m.Rota ids turned j₀ marks)
    (hid : m.unserved = id :: rest) : id ∉ turned := fun hmem =>
  Nat.lt_irrefl id.val (h.head_lt hsorted hid id hmem)

/-- Of those whose turn is next, only earlier callbacks can have asked for a stop. -/
theorem stopsEarly_head_iff (hsorted : ids.Pairwise fun a b => a.val < b.val)
    (h : m.Rota ids turned j₀ marks) (hid : m.unserved = id :: rest) :
    marks.StopsEarly id ↔ m.scene.lifecycle? id ≠ some .running := by
  have hheeds := h.waiting id (hid ▸ List.mem_cons_self)
  rw [ne_eq, hheeds.running_iff, not_not]
  exact ⟨Journal.StopsEarly.asksStop, fun hasks => hasks.early fun self s r reply hmem =>
    h.head_lt hsorted hid _ (h.askers self s r reply hmem)⟩

theorem move (hsorted : ids.Pairwise fun a b => a.val < b.val)
    (h : (⟨p, none, s, j⟩ : Moment κ).Rota ids turned j₀ marks) (hp : p.period? = some .updating)
    (hp' : p'.period? = some .updating) (hm : Move s p p') :
    ∃ turned, (⟨p', none, s, j⟩ : Moment κ).Rota ids turned j₀ marks := by
  cases hm with
  | tick => exact ⟨turned, h.split, h.journal, h.turns, h.askers, h.waiting, nofun⟩
  | @skip delta absolute id rest hstopped =>
    refine ⟨turned ++ [id], ?_, h.journal, ?_, fun self s r reply hmem => ?_, fun x hx => ?_, nofun⟩
    · rw [h.split, List.append_assoc]
      rfl
    · exact h.turns.skip (h.not_mem_head hsorted rfl) ((h.stopsEarly_head_iff hsorted rfl).mpr hstopped)
    · exact List.mem_append_left _ (h.askers self s r reply hmem)
    · exact h.waiting x (List.mem_cons_of_mem _ hx)
  | @delivered late => cases late <;> cases hp
  | quiet => cases hp
  | updated => cases hp'
  | _ => cases hp

theorem call (hsorted : ids.Pairwise fun a b => a.val < b.val)
    (h : (⟨.ticking delta absolute self.component rest, none, s, j⟩ : Moment κ).Rota ids turned j₀ marks)
    (hrun : s.lifecycle? self.component = some .running) :
    (⟨.ticking delta absolute self.component rest, some self, s.takeOut self.component,
      j ++ [.called (.update delta absolute) self (s.takeOut self.component)]⟩ : Moment κ).Rota ids
        (turned ++ [self.component]) j₀
        (marks ++ [.called (.update delta absolute) self (s.takeOut self.component)]) := by
  have hjournal : j = j₀ ++ marks := h.journal
  have hspared : ¬ marks.StopsEarly self.component := fun hearly =>
    (h.stopsEarly_head_iff hsorted rfl).mp hearly hrun
  refine ⟨?_, ?_, ?_, fun self' s' r reply hmem => ?_, fun x hx => ?_, fun self' hself => ?_⟩
  · rw [h.split, List.append_assoc]
    rfl
  · rw [hjournal, List.append_assoc]
  · exact h.turns.call (h.not_mem_head hsorted rfl) hspared delta absolute _
  · rcases List.mem_append.mp hmem with hmem | hmem
    · exact List.mem_append_left _ (h.askers self' s' r reply hmem)
    · cases List.mem_singleton.mp hmem
  · refine (h.waiting x (List.mem_cons_of_mem _ hx)).modifySlot ?_ _ _ (fun _ => rfl) fun _ => rfl
    rintro ⟨_, _, _, _, _, hmem, _⟩
    cases List.mem_singleton.mp hmem
  · cases hself
    refine ⟨List.getLast?_concat, ?_⟩
    rw [Journal.ticks_append]
    exact List.getLast?_concat

theorem ask [Named κ] (hsorted : ids.Pairwise fun a b => a.val < b.val)
    (h : (⟨p, some self, s, j⟩ : Moment κ).Rota ids turned j₀ marks) (r : Request κ) :
    (⟨p, some self, (r.answer self s).2, j ++ [.asked self s r (r.answer self s).1]⟩ : Moment κ).Rota ids
      turned j₀ (marks ++ [.asked self s r (r.answer self s).1]) := by
  obtain ⟨hlast, htick⟩ := h.caller self rfl
  have hjournal : j = j₀ ++ marks := h.journal
  have hsplit : ids = turned ++ (⟨p, some self, s, j⟩ : Moment κ).unserved := h.split
  have hprefix : turned.Pairwise fun a b => a.val < b.val := by
    rw [hsplit] at hsorted
    exact (List.pairwise_append.mp hsorted).1
  have hticks : Journal.ticks [Mark.asked self s r (r.answer self s).1] = [] := rfl
  refine ⟨hsplit, ?_, h.turns.quiet hticks fun id hid self' s' r' reply hmem => ?_,
    fun self' s' r' reply hmem => ?_, fun id hid => (h.waiting id hid).answer self r _, fun self' hself => ?_⟩
  · rw [hjournal, List.append_assoc]
  · cases List.mem_singleton.mp hmem
    exact le_of_getLast? hprefix hlast hid
  · rcases List.mem_append.mp hmem with hmem | hmem
    · exact h.askers self' s' r' reply hmem
    · cases List.mem_singleton.mp hmem
      exact List.mem_of_getLast? hlast
  · cases hself
    rw [Journal.ticks_append, hticks, List.append_nil]
    exact ⟨hlast, htick⟩

theorem back (h : (⟨p, some self, s, j⟩ : Moment κ).Rota ids turned j₀ marks) (component : κ) :
    (⟨p.next, none, s.putBack self.component component, j⟩ : Moment κ).Rota ids turned j₀ marks := by
  have hunserved : (⟨p.next, none, s.putBack self.component component, j⟩ : Moment κ).unserved =
      (⟨p, some self, s, j⟩ : Moment κ).unserved := by
    cases p <;> rfl
  refine ⟨by rw [hunserved]; exact h.split, h.journal, h.turns, h.askers, fun id hid => ?_, nofun⟩
  rw [hunserved] at hid
  have hnothing : ¬ Journal.AsksStop ([] : Journal κ) id := fun ⟨_, _, _, _, _, hmem, _⟩ =>
    absurd hmem List.not_mem_nil
  have hheeds : (s.putBack self.component component).Heeds (marks ++ []) id :=
    (h.waiting id hid).modifySlot hnothing self.component _ (fun _ => rfl) fun _ => rfl
  rwa [List.append_nil] at hheeds

end Moment.Rota

variable [Named κ]

theorem steady_rota {ids : List ComponentId} (hsorted : ids.Pairwise fun a b => a.val < b.val)
    (j₀ : Journal κ) :
    Steady (fun p => p.period? = some .updating)
      fun m => ∃ turned marks, Moment.Rota ids turned j₀ marks m := by
  intro past m m' hcourse hp hp' ⟨turned, marks, h⟩ ho
  cases ho with
  | hosted => cases hp
  | move hm =>
    obtain ⟨turned, h⟩ := h.move hsorted hp hp' hm
    exact ⟨turned, marks, h⟩
  | act ha =>
    cases ha with
    | @resume late | @take late | @serve late | @pass late => cases late <;> cases hp
    | _ => cases hp
  | @call p callback id s j slot hdue hslot =>
    obtain ⟨t, ht, htimely, -⟩ := hcourse.timed.due rfl callback id hdue
    cases p with
    | ticking delta absolute _ rest =>
      cases hdue
      let self : Caller := ⟨slot.owner, id⟩
      have hrun : s.lifecycle? self.component = some .running := htimely ▸ Scene.lifecycle?_of_slot ht
      exact ⟨_, _, Moment.Rota.call hsorted h hrun⟩
    | @reaching late => cases late <;> cases hp
    | initializing | joining | ending | removing => cases hp
    | _ => cases hdue
  | ask r => exact ⟨turned, _, h.ask hsorted r⟩
  | back component => exact ⟨turned, marks, h.back component⟩

namespace Period

variable {b : Behaviour κ ω} {fuel : Nat} {delta absolute : Seconds} {σ σ₁ : Setting κ (ω × Journal κ)}

/-- Everybody who runs when the updates begin has one turn, in the order of the ids, up to a failure. -/
theorem closing_updating (hσ : Path ⟨.idle, none, {}, []⟩ ⟨.idle, none, σ.scene, σ.world.2⟩)
    (ho : opening b fuel delta absolute σ updating = (.ok (), σ₁)) :
    (∀ id, id ∈ σ₁.scene.running ↔ σ₁.scene.lifecycle? id = some .running) ∧
    ((noted b fuel delta absolute σ updating).ticks.Pairwise fun a b => a.val < b.val) ∧
    ∃ turned left, σ₁.scene.running = turned ++ left ∧
      (noted b fuel delta absolute σ updating).TakesTurns turned ∧
      ((closing b fuel delta absolute σ updating).1 = .ok () → left = []) ∧
      ∀ f, (closing b fuel delta absolute σ updating).1 = .error (.failure f) →
        ∃ id, turned.getLast? = some id ∧
          (noted b fuel delta absolute σ updating).ticks.getLast? = some id := by
  have hpath := opens hσ ho
  have hregistered : σ₁.scene.registry.Consistent :=
    (Moment.Sound.empty.along hpath).scene.registered
  have hmem : ∀ id, id ∈ σ₁.scene.running ↔ σ₁.scene.lifecycle? id = some .running :=
    fun _ => Scene.mem_running_iff hregistered
  have hsorted := Scene.running_sorted hregistered
  have hstart : Moment.Rota σ₁.scene.running [] σ₁.world.2 [] (updating.first delta absolute σ₁) :=
    Moment.Rota.start (m := updating.first delta absolute σ₁) (fun id hid => (hmem id).mp hid) rfl
  have hends := ends_closing ho hpath (steady_rota hsorted σ₁.world.2) ⟨[], [], hstart⟩
  have hjournal (marks : Journal κ)
      (hj : (closing b fuel delta absolute σ updating).2.world.2 = σ₁.world.2 ++ marks) :
      noted b fuel delta absolute σ updating = marks := by
    refine noted_of_append ?_
    rw [ho]
    exact hj
  suffices hturns : ∃ turned left, σ₁.scene.running = turned ++ left ∧
      (noted b fuel delta absolute σ updating).TakesTurns turned ∧
      ((closing b fuel delta absolute σ updating).1 = .ok () → left = []) ∧
      ∀ f, (closing b fuel delta absolute σ updating).1 = .error (.failure f) →
        ∃ id, turned.getLast? = some id ∧
          (noted b fuel delta absolute σ updating).ticks.getLast? = some id by
    obtain ⟨turned, left, hsplit, hturns, hends⟩ := hturns
    have horder := hturns.order.trans (List.sublist_append_left turned left)
    exact ⟨hmem, (hsplit ▸ hsorted).sublist horder, turned, left, hsplit, hturns, hends⟩
  cases hc : closing b fuel delta absolute σ updating with
  | mk answer σ₂ =>
    rw [hc] at hends hjournal
    cases answer with
    | ok u =>
      obtain ⟨turned, marks, hrota⟩ := hends.1.holds
      rw [hjournal marks hrota.journal]
      exact ⟨turned, [], hrota.split, hrota.turns, fun _ => rfl, fun _ hfails => by cases hfails⟩
    | error halt =>
      cases hends with
      | @failed _ p self s j w component h =>
        -- The callback that failed is the last that was called.
        obtain ⟨turned, marks, hrota⟩ := h.holds
        have hlosses : p.losses = ([] : Journal κ) := by
          have hkind := h.kind
          cases p <;> first | rfl | cases hkind
        rw [hjournal marks (by rw [hlosses, List.append_nil]; exact hrota.journal)]
        obtain ⟨hlast, htick⟩ := hrota.caller self rfl
        exact ⟨turned, _, hrota.split, hrota.turns, nofun, fun _ _ => ⟨_, hlast, htick⟩⟩
      | crashed h =>
        obtain ⟨turned, marks, hrota⟩ := h.holds
        rw [hjournal marks hrota.journal]
        exact ⟨turned, _, hrota.split, hrota.turns, nofun, fun _ hfails => by cases hfails⟩

end Period

end FrameChain
