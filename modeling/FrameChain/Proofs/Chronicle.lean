import FrameChain.Proofs.Moment.Halts
import FrameChain.Proofs.Moment.News

set_option autoImplicit false

namespace FrameChain

variable {κ ω : Type} [Named κ]

/-- The log tells the life of the component: its beginning, if it ever ran, and its end, if it is gone. -/
def Moment.Recounts (m : Moment κ) (past : List (Moment κ)) (id : ComponentId) : Prop :=
  ∃ early late, m.log.filterMap (Event.stage? id) = early ++ late ∧
    (early = [] ∨ early = [.running]) ∧
    (early = [.running] ↔ ∃ m' ∈ past ++ [m], m'.scene.lifecycle? id = some .running) ∧
    (late = [] ∨ ∃ ending : Scene.Ending,
      late = [ending.lifecycle, .removed] ∧ FirstStop id ending (past ++ [m])) ∧
    (late ≠ [] ↔ m.scene.slot? id = none ∧ m.scene.wasIssued id = true)

namespace Moment.Recounts

variable {past : List (Moment κ)} {m m' : Moment κ} {id : ComponentId} {es : List Event}

theorem start : (⟨.idle, none, {}, []⟩ : Moment κ).Recounts [] id := by
  refine ⟨[], [], rfl, .inl rfl, ⟨nofun, fun ⟨m', hm', hrun⟩ => ?_⟩, .inl rfl, ?_⟩
  · rw [List.mem_singleton.1 hm'] at hrun
    rcases Scene.lifecycle?_cases hrun with ⟨t, ht, _⟩ | ⟨_, _, heq⟩
    · cases ht
    · cases heq
  · refine ⟨fun h => absurd rfl h, fun ⟨_, hissued⟩ => ?_⟩
    have hbounds := Scene.wasIssued_iff.1 hissued
    exact absurd hbounds.1 (Nat.not_lt.2 hbounds.2)

omit [Named κ] in
theorem ran_snoc (hstart : m'.scene.lifecycle? id = some .running →
      m.scene.lifecycle? id = some .running) :
    (∃ x ∈ past ++ [m] ++ [m'], x.scene.lifecycle? id = some .running) ↔
      ∃ x ∈ past ++ [m], x.scene.lifecycle? id = some .running := by
  constructor
  · intro ⟨x, hx, hrun⟩
    rcases List.mem_append.1 hx with hx | hx
    · exact ⟨x, hx, hrun⟩
    · rw [List.mem_singleton.1 hx] at hrun
      exact ⟨m, List.mem_append_right _ (List.mem_singleton_self _), hstart hrun⟩
  · intro ⟨x, hx, hrun⟩
    exact ⟨x, List.mem_append_left _ hx, hrun⟩

theorem same (h : m.Recounts past id) (hlog : m'.log = m.log ++ es)
    (hes : es.filterMap (Event.stage? id) = [])
    (hstart : m'.scene.lifecycle? id = some .running → m.scene.lifecycle? id = some .running)
    (hgone : m'.scene.slot? id = none ∧ m'.scene.wasIssued id = true ↔
      m.scene.slot? id = none ∧ m.scene.wasIssued id = true) : m'.Recounts (past ++ [m]) id := by
  obtain ⟨early, late, hstages, hearly, hran, hlate, hremoved⟩ := h
  refine ⟨early, late, ?_, hearly, hran.trans (ran_snoc hstart).symm, ?_, hremoved.trans hgone.symm⟩
  · rw [hlog, List.filterMap_append, hes, List.append_nil, hstages]
  · exact hlate.imp_right fun ⟨ending, heq, hfirst⟩ => ⟨ending, heq, hfirst.snoc m'⟩

theorem elsewhere (h : m.Recounts past id) (hlog : m'.log = m.log ++ es)
    (hes : es.filterMap (Event.stage? id) = []) (hslot : m'.scene.slot? id = m.scene.slot? id)
    (hissued : m'.scene.wasIssued id = m.scene.wasIssued id) : m'.Recounts (past ++ [m]) id := by
  refine h.same hlog hes ?_ (by rw [hslot, hissued])
  rw [Scene.lifecycle?, Scene.lifecycle?, hslot, hissued]
  exact fun hrun => hrun

theorem quiet (h : m.Recounts past id) (hlog : m'.log = m.log ++ es)
    (hes : es.filterMap (Event.stage? id) = []) (hadv : m.scene.Advances m'.scene)
    (hstart : m.scene.NoStart m'.scene) : m'.Recounts (past ++ [m]) id :=
  h.same hlog hes (hstart id) (hadv.gone_iff id)

theorem runs (h : m.Recounts past id) (hc : Course past m) {slot : Slot κ}
    (hslot : m.scene.slot? id = some slot) (hstate : slot.state = .initialized)
    (hs : m'.scene.slot? id = (m.scene.setState id .running).slot? id)
    (hlog : m'.log = m.log ++ es) (hes : es.filterMap (Event.stage? id) = [.running]) :
    m'.Recounts (past ++ [m]) id := by
  obtain ⟨early, late, hstages, hearly, hran, _, hremoved⟩ := h
  have hnever : ¬ ∃ x ∈ past ++ [m], x.scene.lifecycle? id = some .running := by
    intro ⟨x, hx, hrun⟩
    have hleads : ∃ a, m.scene.lifecycle? id = some a ∧ Lifecycle.running.Leads a := by
      rcases List.mem_append.1 hx with hx | hx
      · exact (List.pairwise_append.1 hc.forward).2.2 x hx m (List.mem_singleton_self _) id _ hrun
      · rw [List.mem_singleton.1 hx] at hrun
        exact ⟨_, hrun, .refl _⟩
    obtain ⟨a, ha, hlead⟩ := hleads
    rw [Scene.lifecycle?_of_slot hslot, hstate] at ha
    cases ha
    rcases hlead with heq | hlt
    · cases heq
    · exact absurd hlt (by decide)
  have hlate : late = [] := by
    by_contra hne
    rw [(hremoved.1 hne).1] at hslot
    cases hslot
  have hearly : early = [] := hearly.resolve_right fun heq => hnever (hran.1 heq)
  have hnow : m'.scene.slot? id = some { slot with state := .running } := by
    rw [hs]
    exact Scene.slot?_modifySlot_self hslot _ fun _ => rfl
  refine ⟨[.running], [], ?_, .inr rfl, ⟨fun _ => ⟨m', ?_, Scene.lifecycle?_of_slot hnow⟩,
    fun _ => rfl⟩, .inl rfl, ⟨fun hne => absurd rfl hne, fun hgone => ?_⟩⟩
  · rw [hlog, List.filterMap_append, hstages, hes, hearly, hlate]
    rfl
  · exact List.mem_append_right _ (List.mem_singleton_self _)
  · cases hnow.symm.trans hgone.1

theorem drops (h : m.Recounts past id) (hc : Course past m) {slot : Slot κ} (hid : slot.id = id)
    (hp : m.phase.dropped? = some slot) (hs : m'.scene = m.scene.dropSlot slot)
    (hlog : m'.log = m.log ++ es)
    (hes : es.filterMap (Event.stage? id) =
      [if slot.state = .finished then .finished else .detached, .removed]) :
    m'.Recounts (past ++ [m]) id := by
  subst hid
  have hholds : m.scene.Holds slot := by
    have hretires := hc.retires
    revert hp hretires
    cases m.phase with
    | dropping x doomed rest =>
      intro hp hretires
      cases hp
      exact hretires
    | _ => exact fun hp => nomatch hp
  obtain ⟨t, ht, _, hsame, hstopped⟩ := hholds
  have hend : ∃ ending : Scene.Ending, t.state = ending.lifecycle ∧
      (if slot.state = .finished then Lifecycle.finished else .detached) = ending.lifecycle := by
    rw [← hsame]
    rcases hstopped with hstate | hstate
    · exact ⟨.finished, hstate, if_pos hstate⟩
    · refine ⟨.detached, hstate, if_neg ?_⟩
      rw [hstate]
      nofun
  obtain ⟨ending, hstate, hkind⟩ := hend
  obtain ⟨early, late, hstages, hearly, hran, _, hremoved⟩ := h
  have hlate : late = [] := by
    by_contra hne
    rw [(hremoved.1 hne).1] at ht
    cases ht
  have hnone : m'.scene.slot? slot.id = none := by
    rw [hs]
    exact m.scene.slot?_dropSlot_self slot
  have hissued : m'.scene.wasIssued slot.id = true := by
    rw [hs]
    exact Scene.wasIssued_of_slot hc.sound.scene.registered ht
  have hfirst : FirstStop slot.id ending (past ++ [m]) :=
    (hc.ended slot.id).ended ending (by rw [Scene.lifecycle?_of_slot ht, hstate])
  refine ⟨early, [ending.lifecycle, .removed], ?_, hearly, hran.trans (ran_snoc ?_).symm,
    .inr ⟨ending, rfl, hfirst.snoc m'⟩, ⟨fun _ => ⟨hnone, hissued⟩, fun _ => List.cons_ne_nil _ _⟩⟩
  · rw [hlog, List.filterMap_append, hstages, hes, hlate, hkind, List.append_nil]
  · rw [Scene.lifecycle?_of_gone hnone hissued]
    nofun

theorem step (h : m.Recounts past id) (hc : Course past m) (hs : Step m m') :
    m'.Recounts (past ++ [m]) id := by
  obtain ⟨es, htells, hnews⟩ := hs.news
  cases hnews with
  | quiet hes hadv hstart => exact h.quiet htells.log (hes id) hadv hstart
  | @runs x slot hslot hstate hscene =>
    by_cases hid : x = id
    · subst hid
      refine h.runs hc hslot hstate ?_ htells.log (by simp [Event.stage?])
      rw [hscene]
      rfl
    · refine h.elsewhere htells.log (by simp [Event.stage?, hid]) ?_ (by rw [hscene]; rfl)
      rw [hscene]
      change (m.scene.setState x .running).slot? id = _
      rw [Scene.slot?_setState]
      cases ht : m.scene.slot? id with
      | none => rfl
      | some t => simp [Scene.slot?_id ht, Ne.symm hid]
  | @drops slot hp hscene =>
    by_cases hid : slot.id = id
    · refine h.drops hc hid hp hscene htells.log ?_
      subst hid
      split <;> simp [Event.stage?, *]
    · refine h.elsewhere htells.log ?_ ?_ (by rw [hscene]; rfl)
      · split <;> simp [Event.stage?, hid]
      · rw [hscene]
        exact Scene.slot?_dropSlot m.scene slot (Ne.symm hid)

end Moment.Recounts

namespace Course

variable {past : List (Moment κ)} {m : Moment κ}

theorem recounts (h : Course past m) (id : ComponentId) : m.Recounts past id := by
  induction h with
  | start => exact .start
  | step h hs ih => exact ih.step h hs

theorem replay (h : Course past m) :
    m.log.foldl Event.replay [] = m.scene.entities.map (·.1) := by
  induction h with
  | start => rfl
  | step h hs ih =>
    obtain ⟨es, htells, _⟩ := hs.news
    rw [htells.log, List.foldl_append, ih, htells.entities]

theorem frames (h : Course past m) :
    (m.log.map (·.frame)).Pairwise (· ≤ ·) ∧ ∀ e ∈ m.log, e.frame ≤ m.scene.frame := by
  induction h with
  | start => exact ⟨.nil, fun e he => absurd he List.not_mem_nil⟩
  | @step past m m' h hs ih =>
    obtain ⟨es, htells, _⟩ := hs.news
    have hold : ∀ e ∈ m.log, e.frame ≤ m'.scene.frame := fun e he =>
      Nat.le_trans (ih.2 e he) htells.frame
    rw [htells.log]
    refine ⟨?_, fun e he => ?_⟩
    · rw [List.map_append, List.pairwise_append]
      refine ⟨ih.1, List.pairwise_map.2 (List.pairwise_of_forall_mem_list fun e he e' he' => ?_), ?_⟩
      · rw [htells.frames e he, htells.frames e' he']
      · intro a ha a' ha'
        obtain ⟨e, he, rfl⟩ := List.mem_map.1 ha
        obtain ⟨e', he', rfl⟩ := List.mem_map.1 ha'
        rw [htells.frames e' he']
        exact hold e he
    · rcases List.mem_append.1 he with he | he
      · exact hold e he
      · exact Nat.le_of_eq (htells.frames e he)

end Course

/-- All events of a history, drained or not, in the order in which they happened: replayed they give
the entities of the scene, their frames never decrease, and of every component they tell its life. -/
theorem chronicle_history (b : Behaviour κ ω) (w : ω) (ops : List (HostOp κ ω)) :
    let s := (ending b w ops).2.scene
    let log := (recording b w ops).2.world.2.drained ++ s.events
    ((recording b w ops).1, (recording b w ops).2.erase) = ending b w ops ∧
    log.foldl Event.replay [] = s.entities.map (·.1) ∧
    (log.map (·.frame)).Pairwise (· ≤ ·) ∧
    (∃ past last, Passed b w ops past last) ∧
    ∀ past last, Passed b w ops past last → last.log = log ∧ ∀ id, last.Recounts past id := by
  intro s log
  have hlog : ∀ past last, Passed b w ops past last → last.log = log := fun past last h => by
    rw [Moment.log, h.journal, h.scene]
  obtain ⟨past, last, hpassed⟩ := exists_passed b w ops
  have hreplay := hpassed.course.replay
  have hframes := hpassed.course.frames.1
  rw [hlog _ _ hpassed] at hreplay hframes
  rw [hpassed.scene] at hreplay
  exact ⟨erase_recording b w ops, hreplay, hframes, ⟨past, last, hpassed⟩,
    fun past last h => ⟨hlog _ _ h, h.course.recounts⟩⟩

def clumsy : Behaviour Probe Unit := fun callback self probe =>
  match callback with
  | .attach => .done (if self.component = ⟨1⟩ then .error (.other "no") else .ok (), probe)
  | _ => .done (.ok (), probe)

/-- The first update fails, and the events up to then are drained; the second probe runs later on. -/
def debut : List (HostOp Probe Unit) :=
  [.call (.addEntity "stage"), .call (.addComponent ⟨1⟩ {}), .call (.addComponent ⟨1⟩ {}),
    .update 1 0 0, .call .drainEvents, .update 1 0 0, .call (.stop ⟨2⟩ .finished), .update 1 0 0]

/-- The failure was the first stop of the one probe, the host's call that of the other. -/
theorem chronicle_history_debut :
    ∃ past last, Passed clumsy () debut past last ∧
      (last.log.filterMap (Event.stage? ⟨1⟩) = [.detached, .removed] ∧
        FirstStop ⟨1⟩ .detached (past ++ [last])) ∧
      last.log.filterMap (Event.stage? ⟨2⟩) = [.running, .finished, .removed] ∧
        FirstStop ⟨2⟩ .finished (past ++ [last]) := by
  obtain ⟨_, _, _, ⟨past, last, hpassed⟩, hlast⟩ := chronicle_history clumsy () debut
  obtain ⟨hlog, hrecounts⟩ := hlast past last hpassed
  have hfirst : last.log.filterMap (Event.stage? ⟨1⟩) = [.detached, .removed] := by
    rw [hlog]
    decide +kernel
  have hsecond : last.log.filterMap (Event.stage? ⟨2⟩) = [.running, .finished, .removed] := by
    rw [hlog]
    decide +kernel
  refine ⟨past, last, hpassed, ⟨hfirst, ?_⟩, hsecond, ?_⟩
  · obtain ⟨early, late, hstages, hearly, _, hlate, _⟩ := hrecounts ⟨1⟩
    rw [hfirst] at hstages
    rcases hearly with rfl | rfl <;> rcases hlate with rfl | ⟨ending, rfl, hstop⟩
    · cases hstages
    · cases ending
      · cases hstages
      · exact hstop
    · cases hstages
    · cases hstages
  · obtain ⟨early, late, hstages, hearly, _, hlate, _⟩ := hrecounts ⟨2⟩
    rw [hsecond] at hstages
    rcases hearly with rfl | rfl <;> rcases hlate with rfl | ⟨ending, rfl, hstop⟩
    · cases hstages
    · cases ending <;> cases hstages
    · cases hstages
    · cases ending
      · exact hstop
      · cases hstages

end FrameChain
