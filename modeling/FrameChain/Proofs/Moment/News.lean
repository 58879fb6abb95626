import FrameChain.Proofs.Moment.Retiring

set_option autoImplicit false

namespace FrameChain

variable {κ : Type}

namespace Event

def replay (ids : List EntityId) : Event → List EntityId
  | entityAdded _ id _ => ids ++ [id]
  | entityRemoved _ id => ids.filter (· ≠ id)
  | _ => ids

/-- The state which the component has come to by this event. -/
def stage? (id : ComponentId) : Event → Option Lifecycle
  | componentAttached _ _ c _ => if c = id then some .running else none
  | componentFinished _ _ c _ => if c = id then some .finished else none
  | componentDetached _ _ c _ => if c = id then some .detached else none
  | componentRemoved _ _ c => if c = id then some .removed else none
  | entityAdded .. | entityRemoved .. | messageSent .. => none

end Event

def Mark.drained : Mark κ → List Event
  | hosted s .drainEvents => s.events
  | _ => []

def Journal.drained (j : Journal κ) : List Event := j.flatMap Mark.drained

theorem Journal.drained_append (j marks : Journal κ) :
    (j ++ marks : Journal κ).drained = j.drained ++ marks.drained := List.flatMap_append

/-- All events so far. -/
def Moment.log (m : Moment κ) : List Event := m.journal.drained ++ m.scene.events

def Mark.news : Mark κ → List Event
  | hosted s (.addEntity name) => [.entityAdded s.frame ⟨s.entitiesIssued + 1⟩ name]
  | hosted s (.send key _ origin) => [.messageSent s.frame key origin]
  | asked self s (.send key _) _ => [.messageSent s.frame key (some self.entity)]
  | _ => []

namespace Scene

/-- The log grows by these events, which are of this frame and tell which entities there are. -/
structure Tells (s s' : Scene κ) (es : List Event) : Prop where
  events : s'.events = s.events ++ es
  entities : es.foldl Event.replay (s.entities.map (·.1)) = s'.entities.map (·.1)
  frame : s.frame ≤ s'.frame
  frames : ∀ e ∈ es, e.frame = s'.frame

def annals (s : Scene κ) : Frame × List EntityId × List Event :=
  (s.frame, s.entities.map (·.1), s.events)

theorem Tells.silent {s s' : Scene κ} (h : s'.annals = s.annals) : s.Tells s' [] := by
  obtain ⟨hframe, hrest⟩ := Prod.mk.inj h
  obtain ⟨hentities, hevents⟩ := Prod.mk.inj hrest
  exact ⟨hevents.trans (List.append_nil _).symm, hentities.symm, Nat.le_of_eq hframe.symm,
    fun _ he => absurd he List.not_mem_nil⟩

theorem Tells.trans {s u v : Scene κ} {es es' : List Event} (h : s.Tells u es) (h' : u.Tells v es')
    (hframe : v.frame = u.frame) : s.Tells v (es ++ es') := by
  refine ⟨?_, ?_, Nat.le_trans h.frame h'.frame, fun e he => ?_⟩
  · rw [h'.events, h.events, List.append_assoc]
  · rw [List.foldl_append, h.entities, h'.entities]
  · rcases List.mem_append.1 he with he | he
    · exact (h.frames e he).trans hframe.symm
    · exact h'.frames e he

theorem annals_modifyEntity (s : Scene κ) (key : EntityId) (f : Entity → Entity) :
    (s.modifyEntity key f).annals = s.annals := by
  rw [annals, keys_modifyEntity]
  rfl

theorem annals_removeEntity (s : Scene κ) (id : EntityId) :
    (s.removeEntity id).2.annals = s.annals := by
  unfold removeEntity
  split
  · rfl
  · split
    · rfl
    · exact s.annals_modifyEntity id fun e => { e with removing := true }

theorem annals_addComponent [Named κ] (s : Scene κ) (owner : EntityId) (component : κ) :
    (s.addComponent owner component).2.annals = s.annals := by
  unfold addComponent
  split
  · rfl
  · exact s.annals_modifyEntity owner fun e =>
      { e with components := e.components ++ [⟨s.componentsIssued + 1⟩] }

theorem annals_stop (s : Scene κ) (id : ComponentId) (ending : Ending) :
    (s.stop id ending).2.annals = s.annals := by
  unfold stop
  split <;> rfl

theorem annals_subscribe (s : Scene κ) (key : String) (component : ComponentId)
    (filter : Option Condition) : (s.subscribe key component filter).2.annals = s.annals := by
  unfold subscribe
  split <;> rfl

theorem annals_detachDoomed (s : Scene κ) : s.detachDoomed.annals = s.annals := by
  rw [detachDoomed_eq]
  exact foldl_frame annals (f := fun s id => s.markStopped id .detached) (fun _ _ => rfl) s.evicted _

theorem annals_recover (s : Scene κ) (p : Phase κ) : (p.recover s).annals = s.annals := by
  cases p with
  | initializing id batch | joining id batch => exact s.annals_stop id .detached
  | _ => rfl

section

variable [Named κ] (s : Scene κ)

omit [Named κ] in
theorem tells_send (key : String) (data : Json) (origin : Option EntityId) :
    s.Tells (s.sendMessage key data origin) [.messageSent s.frame key origin] := by
  refine ⟨rfl, rfl, Nat.le_refl _, fun e he => ?_⟩
  rw [List.mem_singleton.1 he]
  rfl

theorem tells_apply (c : HostCall κ) (h : c ≠ .drainEvents) :
    s.Tells (c.apply s).2 (Mark.hosted s c).news := by
  cases c with
  | addEntity name =>
    refine ⟨rfl, ?_, Nat.le_refl _, fun e he => ?_⟩
    · simp only [Mark.news, HostCall.apply, addEntity, List.foldl_cons, List.foldl_nil, Event.replay,
        List.map_append, List.map_cons, List.map_nil]
    · rw [List.mem_singleton.1 he]
      rfl
  | send key data origin => exact s.tells_send key data origin
  | patchEntity id patch => exact .silent (s.annals_modifyEntity id patch.apply)
  | removeEntity id => exact .silent (s.annals_removeEntity id)
  | addComponent owner component => exact .silent (s.annals_addComponent owner component)
  | stop id ending => exact .silent (s.annals_stop id ending)
  | subscribe key component filter => exact .silent (s.annals_subscribe key component filter)
  | drainEvents => exact absurd rfl h
  | unsubscribe | editComponent => exact .silent rfl

theorem tells_answer (self : Caller) (r : Request κ) :
    s.Tells (r.answer self s).2 (Mark.asked self s r (r.answer self s).1).news := by
  cases r with
  | send key data => exact s.tells_send key data (some self.entity)
  | patchEntity id patch => exact .silent (s.annals_modifyEntity id patch.apply)
  | removeEntity id => exact .silent (s.annals_removeEntity id)
  | addComponent owner component => exact .silent (s.annals_addComponent owner component)
  | stop id ending => exact .silent (s.annals_stop id ending)
  | subscribe key filter => exact .silent (s.annals_subscribe key self.component filter)
  | finish | unsubscribe => exact .silent rfl

omit [Named κ] in
theorem tells_removeIfEmpty (entity : EntityId) :
    ∃ es, s.Tells (s.removeIfEmpty entity) es ∧ (s.removeIfEmpty entity).frame = s.frame ∧
      ∀ id, es.filterMap (Event.stage? id) = [] := by
  unfold removeIfEmpty
  split
  · refine ⟨[.entityRemoved s.frame entity], ⟨rfl, ?_, Nat.le_refl _, fun e he => ?_⟩, rfl,
      fun _ => rfl⟩
    · simp only [List.foldl_cons, List.foldl_nil, Event.replay, List.filter_map]
      congr 1
      refine List.filter_congr fun e _ => ?_
      simp only [Function.comp_apply, bne, decide_not]
      rfl
    · rw [List.mem_singleton.1 he]
      rfl
  · exact ⟨[], .silent rfl, rfl, fun _ => rfl⟩

omit [Named κ] in
theorem tells_clear (doomed : List EntityId) :
    ∃ es, s.Tells (doomed.foldl removeIfEmpty s) es ∧
      (doomed.foldl removeIfEmpty s).frame = s.frame ∧
      ∀ id, es.filterMap (Event.stage? id) = [] := by
  induction doomed generalizing s with
  | nil => exact ⟨[], .silent rfl, rfl, fun _ => rfl⟩
  | cons entity rest ih =>
    obtain ⟨es, htells, hframe, hsilent⟩ := s.tells_removeIfEmpty entity
    obtain ⟨es', htells', hframe', hsilent'⟩ := ih (s.removeIfEmpty entity)
    refine ⟨es ++ es', htells.trans htells' hframe', hframe'.trans hframe, fun id => ?_⟩
    rw [List.filterMap_append, hsilent, hsilent', List.append_nil]

end

end Scene

theorem Mark.news_silent (mark : Mark κ) (id : ComponentId) :
    mark.news.filterMap (Event.stage? id) = [] := by
  unfold Mark.news
  split <;> rfl

structure Moment.Tells (m m' : Moment κ) (es : List Event) : Prop where
  log : m'.log = m.log ++ es
  entities : es.foldl Event.replay (m.scene.entities.map (·.1)) = m'.scene.entities.map (·.1)
  frame : m.scene.frame ≤ m'.scene.frame
  frames : ∀ e ∈ es, e.frame = m'.scene.frame

theorem Scene.Tells.moment {m m' : Moment κ} {es : List Event} (h : m.scene.Tells m'.scene es)
    {marks : Journal κ} (hj : m'.journal = m.journal ++ marks) (hd : marks.drained = []) :
    m.Tells m' es := by
  refine ⟨?_, h.entities, h.frame, h.frames⟩
  rw [Moment.log, Moment.log, hj, Journal.drained_append, hd, List.append_nil, h.events,
    List.append_assoc]

def Scene.NoStart (s s' : Scene κ) : Prop :=
  ∀ id, s'.lifecycle? id = some .running → s.lifecycle? id = some .running

theorem Scene.Continues.noStart {s s' : Scene κ} (h : s.Continues s') : s.NoStart s' := by
  intro id hr
  rcases lifecycle?_cases hr with ⟨t', ht', hstate⟩ | ⟨_, _, heq⟩
  · rcases h id t' ht' with hfresh | ⟨t, ht, hcont⟩
    · cases hstate.symm.trans hfresh.state
    · rw [lifecycle?_of_slot ht, hcont.running hstate]
  · cases heq

inductive News (m m' : Moment κ) : List Event → Prop where
  | quiet {es : List Event} (hes : ∀ id, es.filterMap (Event.stage? id) = [])
      (hadv : m.scene.Advances m'.scene) (hstart : m.scene.NoStart m'.scene) : News m m' es
  | runs {id : ComponentId} {slot : Slot κ} (hslot : m.scene.slot? id = some slot)
      (hstate : slot.state = .initialized)
      (hs : m'.scene = (m.scene.setState id .running).log
        (.componentAttached m.scene.frame slot.owner id slot.name)) :
      News m m' [.componentAttached m.scene.frame slot.owner id slot.name]
  | drops {slot : Slot κ} (hp : m.phase.dropped? = some slot)
      (hs : m'.scene = m.scene.dropSlot slot) :
      News m m'
        [if slot.state = .finished then
            .componentFinished m.scene.frame slot.owner slot.id slot.name
          else .componentDetached m.scene.frame slot.owner slot.id slot.name,
          .componentRemoved m.scene.frame slot.owner slot.id]

theorem Scene.noStart_modifySlot {s : Scene κ} (id : ComponentId) (f : Slot κ → Slot κ)
    (hid : ∀ t, (f t).id = t.id) (hf : ∀ t, (f t).state = .running → t.state = .running) :
    s.NoStart (s.modifySlot id f) := by
  intro x hr
  rcases lifecycle?_cases hr with ⟨t', ht', hstate⟩ | ⟨_, _, heq⟩
  · rw [slot?_modifySlot s id x f hid] at ht'
    obtain ⟨t, ht, rfl⟩ := Option.map_eq_some_iff.1 ht'
    rw [lifecycle?_of_slot ht]
    split at hstate
    · rw [hf t hstate]
    · rw [hstate]
  · cases heq

theorem Act.news {s s' : Scene κ} {p p' : Phase κ} {j marks : Journal κ} (h : Act s p p' s' marks) :
    ∃ es, (⟨p, none, s, j⟩ : Moment κ).Tells ⟨p', none, s', j ++ marks⟩ es ∧
      News ⟨p, none, s, j⟩ ⟨p', none, s', j ++ marks⟩ es := by
  have hundrained : marks.drained = [] := by cases h <;> rfl
  have hsilent : s'.annals = s.annals → s.Advances s' → s.NoStart s' →
      ∃ es, (⟨p, none, s, j⟩ : Moment κ).Tells ⟨p', none, s', j ++ marks⟩ es ∧
        News ⟨p, none, s, j⟩ ⟨p', none, s', j ++ marks⟩ es := fun ha hadv hstart =>
    ⟨[], (Scene.Tells.silent ha).moment rfl hundrained, .quiet (fun _ => rfl) hadv hstart⟩
  have hadv := h.advances
  cases h with
  | begin =>
    refine ⟨[], ⟨?_, rfl, Nat.le_succ _, fun _ he => absurd he List.not_mem_nil⟩,
      .quiet (fun _ => rfl) (.of_slots rfl rfl) (Scene.Continues.of_slots rfl).noStart⟩
    rw [List.append_nil, Moment.log, Moment.log, List.append_nil]
  | start hnew =>
    exact hsilent rfl (hadv.resolve_right nofun)
      (Scene.noStart_modifySlot _ _ (fun _ => rfl) fun _ hr => hr)
  | initialized hslot hstate =>
    exact hsilent rfl (hadv.resolve_right nofun)
      (Scene.noStart_modifySlot _ _ (fun _ => rfl) nofun)
  | @run id batch slot hslot hstate =>
    refine ⟨_, Scene.Tells.moment ⟨rfl, rfl, Nat.le_refl _, fun e he => ?_⟩ rfl hundrained,
      .runs hslot hstate rfl⟩
    rw [List.mem_singleton.1 he]
    rfl
  | round =>
    exact hsilent s.annals_detachDoomed s.advances_detachDoomed
      Scene.Continues.detachDoomed.noStart
  | @drop slot doomed rest =>
    refine ⟨_, Scene.Tells.moment ⟨rfl, ?_, Nat.le_refl _, fun e he => ?_⟩ rfl hundrained,
      .drops rfl rfl⟩
    · have hids := congrArg (fun annals => annals.2.1) (s.annals_modifyEntity slot.owner
        fun e => { e with components := e.components.filter fun id => id != slot.id })
      refine Eq.trans ?_ hids.symm
      simp only [List.foldl_cons, List.foldl_nil]
      split <;> rfl
    · rcases List.mem_cons.1 he with rfl | he
      · split <;> rfl
      · rw [List.mem_singleton.1 he]
        rfl
  | @clear doomed =>
    obtain ⟨es, htells, _, hes⟩ := s.tells_clear doomed
    exact ⟨es, htells.moment rfl hundrained,
      .quiet hes (s.advances_clear doomed) (Scene.Continues.clear doomed).noStart⟩
  | resume | take | serve | pass =>
    exact hsilent rfl (.of_slots rfl rfl) (Scene.Continues.of_slots rfl).noStart

theorem Step.news [Named κ] {m m' : Moment κ} (hs : Step m m') :
    ∃ es, m.Tells m' es ∧ News m m' es := by
  have hsilent : m'.scene.annals = m.scene.annals → m.scene.Advances m'.scene →
      m.scene.Continues m'.scene → (∃ marks, m'.journal = m.journal ++ marks ∧ marks.drained = []) →
      ∃ es, m.Tells m' es ∧ News m m' es := fun ha hadv hc ⟨_, hj, hd⟩ =>
    ⟨[], (Scene.Tells.silent ha).moment hj hd, .quiet (fun _ => rfl) hadv hc.noStart⟩
  cases hs with
  | onward ho =>
    cases ho with
    | @hosted s j c =>
      have hc := Scene.change_apply s c
      have hquiet : ∀ es : List Event, (∀ id, es.filterMap (Event.stage? id) = []) →
          News ⟨.idle, none, s, j⟩ ⟨.idle, none, (c.apply s).2, j ++ [.hosted s c]⟩ es :=
        fun es hes => .quiet hes hc.advances (Scene.Continues.change hc).noStart
      by_cases hdrain : c = .drainEvents
      · subst hdrain
        refine ⟨[], ⟨?_, rfl, Nat.le_refl _, fun _ he => absurd he List.not_mem_nil⟩,
          hquiet [] fun _ => rfl⟩
        change (j ++ [Mark.hosted s .drainEvents] : Journal κ).drained ++ [] =
          j.drained ++ s.events ++ []
        rw [Journal.drained_append]
        simp [Journal.drained, Mark.drained]
      · refine ⟨_, (s.tells_apply c hdrain).moment rfl ?_,
          hquiet _ fun id => (Mark.hosted s c).news_silent id⟩
        cases c with
        | drainEvents => exact absurd rfl hdrain
        | _ => rfl
    | move => exact hsilent rfl (.of_slots rfl rfl) (.of_slots rfl) ⟨[], (List.append_nil _).symm, rfl⟩
    | act ha => exact ha.news
    | @call p callback id s j slot hp h =>
      exact hsilent rfl (s.advances_takeOut id) (.takeOut id) ⟨_, rfl, rfl⟩
    | @ask p self s j r =>
      have hc := Scene.change_answer s self r
      exact ⟨_, (s.tells_answer self r).moment rfl rfl, .quiet (Mark.news_silent _) hc.advances
        (Scene.Continues.change hc).noStart⟩
    | @back p self s j component =>
      exact hsilent rfl (s.advances_putBack _ component) (.putBack _ component)
        ⟨[], (List.append_nil j).symm, rfl⟩
  | @fail p self s j component =>
    exact hsilent (Scene.annals_recover (s.putBack self.component component) p)
      (p.advances_fail s _ component) (.recover p _ component) ⟨p.losses, rfl, by cases p <;> rfl⟩

end FrameChain
