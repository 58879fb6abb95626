import FrameChain.Proofs.Lifecycle
import FrameChain.Proofs.Moment.Waiting

set_option autoImplicit false

/-! Those whose `init` was called, the one whose `init` is due, the rest of the batch and the attach
queue stand in one line, in the order of their ids. A failure does not change the line: what goes back
in front of the queue was behind the failing component before. -/
namespace FrameChain

variable {κ ω : Type}

def Mark.init? : Mark κ → Option ComponentId
  | called .init self _ => some self.component
  | _ => none

def Mark.join? : Mark κ → Option ComponentId
  | called .attach self _ => some self.component
  | _ => none

namespace Journal

def inits (j : Journal κ) : List ComponentId := j.filterMap Mark.init?

def joins (j : Journal κ) : List ComponentId := j.filterMap Mark.join?

theorem inits_append (j marks : Journal κ) :
    (j ++ marks : Journal κ).inits = j.inits ++ marks.inits := List.filterMap_append

theorem joins_append (j marks : Journal κ) :
    (j ++ marks : Journal κ).joins = j.joins ++ marks.joins := List.filterMap_append

theorem mem_inits {j : Journal κ} {self : Caller} {s : Scene κ} (h : .called .init self s ∈ j) :
    self.component ∈ j.inits := List.mem_filterMap.mpr ⟨_, h, rfl⟩

end Journal

def Journal.Calm (marks : Journal κ) : Prop := marks.inits = [] ∧ marks.joins = []

theorem Journal.Calm.join? {marks : Journal κ} (h : marks.Calm) {mark : Mark κ} (hm : mark ∈ marks)
    (id : ComponentId) : mark.join? ≠ some id := by
  intro hjoin
  have hmem : id ∈ marks.joins := List.mem_filterMap.mpr ⟨mark, hm, hjoin⟩
  rw [h.2] at hmem
  exact absurd hmem List.not_mem_nil

theorem Act.calm {s s' : Scene κ} {p p' : Phase κ} {marks : Journal κ} (h : Act s p p' s' marks) :
    marks.Calm := by
  cases h <;> exact ⟨rfl, rfl⟩

theorem Phase.calm_losses (p : Phase κ) : p.losses.Calm := by
  cases p <;> exact ⟨rfl, rfl⟩

namespace Scene

variable [Named κ]

theorem Change.attachQueue {s s' : Scene κ} (h : Change s s') :
    s'.attachQueue = s.attachQueue ∨
      s'.attachQueue = s.attachQueue ++ [⟨s.componentsIssued + 1⟩] ∧
        s'.componentsIssued = s.componentsIssued + 1 := by
  cases h with
  | @attached owner e component ho =>
    refine .inr ⟨?_, ?_⟩ <;> simp only [addComponent, ho]
  | _ => exact .inl rfl

end Scene

theorem Phase.attachQueue_recover {p : Phase κ} {callback : Callback} {id : ComponentId}
    (hp : p.callee = some (callback, id)) (s : Scene κ) :
    (p.recover s).attachQueue = p.batch ++ s.attachQueue := by
  have hstop : ∀ x, (s.stop x .detached).2.attachQueue = s.attachQueue := by
    intro x
    unfold Scene.stop
    split <;> rfl
  cases p with
  | initializing x batch | joining x batch => exact congrArg (batch ++ ·) (hstop x)
  | reaching | ticking | ending | removing => rfl
  | _ => cases hp

namespace Moment

def dueInit (m : Moment κ) : Option ComponentId :=
  match m.phase, m.calling with
  | .initializing id _, none => some id
  | _, _ => none

/-- Who was called first stands first. -/
def line (m : Moment κ) : List ComponentId :=
  m.journal.inits ++ (m.dueInit.toList ++ (m.phase.batch ++ m.scene.attachQueue))

def Moves (m m' : Moment κ) : Prop :=
  m'.line.Sublist m.line ∨
    m'.line = m.line ++ [⟨m.scene.componentsIssued + 1⟩] ∧
      m'.scene.componentsIssued = m.scene.componentsIssued + 1

/-- Nobody in the line was passed by, and everybody in it was issued. -/
structure InLine (m : Moment κ) : Prop where
  sorted : m.line.Pairwise fun a b => a.val < b.val
  issued : ∀ id ∈ m.line, id.val ≤ m.scene.componentsIssued

theorem InLine.empty : (⟨.idle, none, {}, []⟩ : Moment κ).InLine :=
  ⟨.nil, fun _ h => absurd h List.not_mem_nil⟩

theorem InLine.inits {m : Moment κ} (h : m.InLine) :
    m.journal.inits.Pairwise fun a b => a.val < b.val :=
  (List.pairwise_append.mp h.sorted).1

theorem InLine.moves {m m' : Moment κ} (h : m.InLine) (hm : m.Moves m')
    (hi : m.scene.componentsIssued ≤ m'.scene.componentsIssued) : m'.InLine := by
  rcases hm with hsub | ⟨heq, hnext⟩
  · exact ⟨h.sorted.sublist hsub, fun id hid => Nat.le_trans (h.issued id (hsub.subset hid)) hi⟩
  · refine ⟨?_, fun id hid => ?_⟩
    · rw [heq]
      refine List.pairwise_append.mpr ⟨h.sorted, List.pairwise_singleton _ _, fun a ha b hb => ?_⟩
      rw [List.mem_singleton.mp hb]
      exact Nat.lt_succ_of_le (h.issued a ha)
    · rw [heq] at hid
      rcases List.mem_append.mp hid with hid | hid
      · exact Nat.le_trans (h.issued id hid) hi
      · obtain rfl := List.mem_singleton.mp hid
        exact Nat.le_of_eq hnext.symm

theorem moves_of_eq {m m' : Moment κ} (h : m'.line = m.line) : m.Moves m' := .inl (h ▸ .refl _)

theorem moves_change [Named κ] {p : Phase κ} {calling : Option Caller} {s s' : Scene κ} {j : Journal κ}
    {mark : Mark κ} (hc : Scene.Change s s') (hmark : Journal.inits [mark] = []) :
    (⟨p, calling, s, j⟩ : Moment κ).Moves ⟨p, calling, s', j ++ [mark]⟩ := by
  have hline : ∀ queue, (j ++ [mark] : Journal κ).inits ++ queue = j.inits ++ queue := by
    intro queue
    rw [Journal.inits_append, hmark, List.append_nil]
  rcases hc.attachQueue with hq | ⟨hq, hi⟩
  · refine moves_of_eq ((hline _).trans ?_)
    dsimp only [line, dueInit]
    rw [hq]
  · refine .inr ⟨(hline _).trans ?_, hi⟩
    dsimp only [line, dueInit]
    rw [hq]
    simp only [List.append_assoc]

theorem moves_move {s : Scene κ} {p p' : Phase κ} {j : Journal κ} (h : Move s p p') :
    (⟨p, none, s, j⟩ : Moment κ).Moves ⟨p', none, s, j⟩ := by
  cases h with
  | @passOver id batch h =>
    refine .inl (.append_left (.append_left (.append_right ?_ _) _) _)
    exact List.sublist_cons_self id batch
  | _ => exact moves_of_eq rfl

theorem moves_act {s s' : Scene κ} {p p' : Phase κ} {j marks : Journal κ} (h : Act s p p' s' marks) :
    (⟨p, none, s, j⟩ : Moment κ).Moves ⟨p', none, s', j ++ marks⟩ := by
  have hinits : (j ++ marks : Journal κ).inits = j.inits := by
    rw [Journal.inits_append, h.calm.1, List.append_nil]
  refine moves_of_eq (congrArg₂ (· ++ ·) hinits ?_)
  cases h with
  | begin => exact List.append_nil _
  | round => exact congrArg Prod.fst s.desk_detachDoomed
  | @clear doomed => exact congrArg Prod.fst (s.desk_clear doomed)
  | _ => rfl

theorem moves_call {s : Scene κ} {p : Phase κ} {j : Journal κ} {callback : Callback} {self : Caller}
    (hp : p.callee = some (callback, self.component)) :
    (⟨p, none, s, j⟩ : Moment κ).Moves ⟨p, some self, s.takeOut self.component,
      j ++ [.called callback self (s.takeOut self.component)]⟩ := by
  refine moves_of_eq ?_
  simp only [line, Journal.inits_append]
  cases p with
  | initializing id batch =>
    obtain ⟨rfl, rfl⟩ := Prod.mk.inj (Option.some.inj hp)
    exact List.append_assoc _ _ _
  | ending slot doomed rest =>
    obtain ⟨rfl, -⟩ := Prod.mk.inj (Option.some.inj hp)
    rw [show Journal.inits [Mark.called (if slot.state = .finished then .finish else .detach) self
      (s.takeOut self.component)] = [] by split <;> rfl, List.append_nil]
    rfl
  | joining | reaching | ticking | removing =>
    obtain ⟨rfl, -⟩ := Prod.mk.inj (Option.some.inj hp)
    exact congrArg (· ++ _) (List.append_nil _)
  | _ => cases hp

theorem moves_fail [Named κ] {p : Phase κ} {self : Caller} {s : Scene κ} {j : Journal κ}
    {callback : Callback} (component : κ) (hp : p.callee = some (callback, self.component)) :
    (⟨p, some self, s, j⟩ : Moment κ).Moves
      ⟨.idle, none, p.recover (s.putBack self.component component), j ++ p.losses⟩ := by
  refine moves_of_eq (congrArg₂ (· ++ ·) ?_ ?_)
  · rw [Journal.inits_append, p.calm_losses.1, List.append_nil]
  · refine (Phase.attachQueue_recover hp _).trans ?_
    cases p <;> rfl

variable [Named κ]

theorem Sound.moves {m m' : Moment κ} (h : m.Sound) (hs : Step m m') : m.Moves m' := by
  cases hs with
  | onward ho =>
    cases ho with
    | @hosted s j c => exact moves_change (s.change_apply c) rfl
    | move hmove => exact moves_move hmove
    | act ha => exact moves_act ha
    | call hp _ => exact moves_call hp
    | @ask p self s j r => exact moves_change (s.change_answer self r) rfl
    | @back p self s j component =>
      refine moves_of_eq (congrArg₂ (· ++ ·) rfl ?_)
      cases p <;> rfl
  | @fail p self s j component =>
    obtain ⟨callback, hp⟩ := h.due self rfl
    exact moves_fail component hp

end Moment

variable [Named κ]

theorem Step.issued {m m' : Moment κ} (hs : Step m m') :
    m.scene.componentsIssued ≤ m'.scene.componentsIssued := by
  rcases hs.advances with hadv | ⟨slot, _, heq⟩
  · exact hadv.issued
  · rw [heq]
    exact Nat.le_refl _

theorem Course.inLine {past : List (Moment κ)} {m : Moment κ} (h : Course past m) : m.InLine := by
  induction h with
  | start => exact .empty
  | step h hs ih => exact ih.moves (h.sound.moves hs) hs.issued

namespace Moment

def entering (m : Moment κ) : Option ComponentId :=
  match m.phase, m.calling with
  | .initializing id _, some _ => some id
  | .initialized id _, _ => some id
  | .joining id _, none => some id
  | _, _ => none

/-- The calls of `attach` follow those of `init`, with some left out. -/
def InTurn (m : Moment κ) : Prop :=
  ∃ before, m.journal.inits = before ++ m.entering.toList ∧ m.journal.joins.Sublist before

omit [Named κ]

theorem InTurn.sublist {m : Moment κ} (h : m.InTurn) : m.journal.joins.Sublist m.journal.inits := by
  obtain ⟨before, hinits, hjoins⟩ := h
  rw [hinits]
  exact hjoins.trans (List.sublist_append_left _ _)

theorem InTurn.calm {m m' : Moment κ} {marks : Journal κ} (h : m.InTurn)
    (hj : m'.journal = m.journal ++ marks) (hcalm : marks.Calm)
    (he : m'.entering = m.entering ∨ m'.entering = none) : m'.InTurn := by
  have hinits : m'.journal.inits = m.journal.inits := by
    rw [hj, Journal.inits_append, hcalm.1, List.append_nil]
  have hjoins : m'.journal.joins = m.journal.joins := by
    rw [hj, Journal.joins_append, hcalm.2, List.append_nil]
  unfold InTurn
  rw [hinits, hjoins]
  rcases he with he | he
  · rw [he]
    exact h
  · rw [he]
    exact ⟨_, (List.append_nil _).symm, h.sublist⟩

theorem InTurn.same {m m' : Moment κ} (h : m.InTurn) (hj : m'.journal = m.journal)
    (he : m'.entering = m.entering ∨ m'.entering = none) : m'.InTurn :=
  h.calm (hj.trans (List.append_nil _).symm) ⟨rfl, rfl⟩ he

theorem InTurn.call {s : Scene κ} {p : Phase κ} {j : Journal κ} {callback : Callback} {self : Caller}
    (h : (⟨p, none, s, j⟩ : Moment κ).InTurn) (hp : p.callee = some (callback, self.component)) :
    (⟨p, some self, s.takeOut self.component,
      j ++ [.called callback self (s.takeOut self.component)]⟩ : Moment κ).InTurn := by
  cases p with
  | initializing id batch =>
    obtain ⟨rfl, rfl⟩ := Prod.mk.inj (Option.some.inj hp)
    refine ⟨j.inits, Journal.inits_append _ _, ?_⟩
    rw [Journal.joins_append]
    exact (List.append_nil _).symm ▸ h.sublist
  | joining id batch =>
    obtain ⟨rfl, rfl⟩ := Prod.mk.inj (Option.some.inj hp)
    obtain ⟨before, hinits, hjoins⟩ := h
    refine ⟨before ++ [self.component], ?_, ?_⟩
    · rw [Journal.inits_append]
      exact congrArg (· ++ []) hinits
    · rw [Journal.joins_append]
      exact hjoins.append (.refl _)
  | ending slot doomed rest =>
    obtain ⟨rfl, -⟩ := Prod.mk.inj (Option.some.inj hp)
    refine h.calm rfl ?_ (.inl rfl)
    split <;> exact ⟨rfl, rfl⟩
  | reaching | ticking | removing =>
    obtain ⟨rfl, -⟩ := Prod.mk.inj (Option.some.inj hp)
    exact h.calm rfl ⟨rfl, rfl⟩ (.inl rfl)
  | _ => cases hp

variable [Named κ]

theorem InTurn.step {m m' : Moment κ} (h : m.InTurn) (hs : Step m m') : m'.InTurn := by
  cases hs with
  | onward ho =>
    cases ho with
    | hosted c => exact h.calm rfl ⟨rfl, rfl⟩ (.inl rfl)
    | move hmove =>
      cases hmove with
      | overtakenInit => exact h.same rfl (.inr rfl)
      | _ => exact h.same rfl (.inl rfl)
    | act ha =>
      refine h.calm rfl ha.calm (.inl ?_)
      cases ha <;> rfl
    | call hp _ => exact h.call hp
    | ask r => exact h.calm rfl ⟨rfl, rfl⟩ (.inl rfl)
    | @back p self s j component =>
      refine h.same rfl (.inl ?_)
      cases p <;> rfl
  | @fail p self s j component => exact h.calm rfl p.calm_losses (.inr rfl)

end Moment

theorem Course.inTurn {past : List (Moment κ)} {m : Moment κ} (h : Course past m) : m.InTurn := by
  induction h with
  | start => exact ⟨[], rfl, .refl _⟩
  | step h hs ih => exact ih.step hs

/-- The `init` of this component has returned well at one of these stations, before anything else was noted
than this. -/
def Opened (b : Behaviour κ ω) (stations : List (Station κ ω)) (id : ComponentId) (before : Journal κ) :
    Prop :=
  ∃ g ∈ stations, ∃ self component component' σ, self.component = id ∧
    g.Plays b .init self component (.ok (.ok (), component')) σ ∧ σ.world.2 <+: before

def Phase.opened? : Phase κ → Option ComponentId
  | initialized id _ | joining id _ | joined id _ => some id
  | _ => none

omit [Named κ] in
theorem Phase.opened_of_attach {p : Phase κ} {id : ComponentId} (h : p.callee = some (.attach, id)) :
    p.opened? = some id := by
  cases p with
  | joining x batch =>
    cases h
    rfl
  | ending slot doomed rest =>
    have hend := (Prod.mk.inj (Option.some.inj h)).1
    split at hend <;> cases hend
  | _ => cases h

omit [Named κ] in
theorem Phase.starting_of_init {p : Phase κ} {id : ComponentId} (h : p.callee = some (.init, id)) :
    p.starting = some id := by
  cases p with
  | initializing x batch =>
    cases h
    rfl
  | ending slot doomed rest =>
    have hend := (Prod.mk.inj (Option.some.inj h)).1
    split at hend <;> cases hend
  | _ => cases h

structure Station.Opens (b : Behaviour κ ω) (stations : List (Station κ ω)) (g : Station κ ω) :
    Prop where
  joined : g.setting.world.2.Each fun before mark => ∀ id, mark.join? = some id →
    Opened b stations id before
  joining : ∀ id, g.phase.opened? = some id → Opened b stations id g.setting.world.2

section Opens

variable {b : Behaviour κ ω} {stations stations' : List (Station κ ω)} {id : ComponentId}
  {j j' marks : Journal κ} {g g' : Station κ ω}

theorem Opened.mono (h : Opened b stations id j) (hs : stations ⊆ stations') (hj : j <+: j') :
    Opened b stations' id j' := by
  obtain ⟨g, hg, self, component, component', σ, hid, hplays, hbefore⟩ := h
  exact ⟨g, hs hg, self, component, component', σ, hid, hplays, hbefore.trans hj⟩

theorem Station.Opens.mono (h : g.Opens b stations) (hs : stations ⊆ stations') :
    g.Opens b stations' :=
  ⟨fun before mark after heq id hid => (h.joined before mark after heq id hid).mono hs (List.prefix_refl _),
    fun id hid => (h.joining id hid).mono hs (List.prefix_refl _)⟩

theorem Station.Opens.plays (h : g.Opens b stations) {callback : Callback} {self : Caller} {component : κ}
    {outcome : Except Crash (Except Failure Unit × κ)} {σ : Setting κ (ω × Journal κ)}
    (hp : g.Plays b callback self component outcome σ) :
    g.setting.world.2 <+: σ.world.2 ∧
      σ.world.2.Each fun before mark => ∀ id, mark.join? = some id → Opened b stations id before := by
  refine hp.keeps (P := fun m => g.setting.world.2 <+: m.journal ∧
    m.journal.Each fun before mark => ∀ id, mark.join? = some id → Opened b stations id before)
    (fun m m' hm ho hphase hcalling => ?_) ⟨List.prefix_refl _, h.joined⟩
  obtain ⟨hbegins, heach⟩ := hm
  cases ho with
  | @call p called x s j slot hdue _ =>
    refine ⟨hbegins.trans (List.prefix_append _ _), heach.concat fun id hid => ?_⟩
    cases called with
    | attach =>
      cases hid
      obtain rfl : p = g.phase := hphase
      exact (h.joining _ (Phase.opened_of_attach hdue)).mono (List.Subset.refl _) hbegins
    | _ => cases hid
  | ask r =>
    refine ⟨hbegins.trans (List.prefix_append _ _), heach.concat fun id hid => ?_⟩
    cases hid
  | hosted | move | act | back => cases hcalling

theorem Station.Opens.leg {ops : List (HostOp κ ω)} (h : g.Opens b stations) (hs : Leg b ops g g') :
    g'.Opens b (stations ++ [g]) := by
  have hold := h.mono (List.subset_append_left stations [g])
  cases hs with
  | stride hs =>
    cases hs with
    | move hmove =>
      refine ⟨hold.joined, fun id hid => ?_⟩
      cases hmove <;> cases hid
    | @act p p' σ s' marks ha =>
      refine ⟨hold.joined.append fun mark hmem _ id hid => absurd hid (ha.calm.join? hmem id),
        fun id hid => ?_⟩
      cases ha with
      | initialized => exact (hold.joining id hid).mono (List.Subset.refl _) (List.prefix_append _ _)
      | _ => cases hid
    | @called g callback self component component' σ hp =>
      obtain ⟨hbegins, heach⟩ := hold.plays hp
      refine ⟨heach, fun id hid => ?_⟩
      obtain ⟨p, σ₀⟩ := g
      have hdue := hp.due
      cases p with
      | initializing x batch =>
        cases hdue
        cases hid
        refine ⟨_, List.mem_append_right _ (List.mem_singleton_self _), self, component, component', σ,
          rfl, hp, List.prefix_refl _⟩
      | joining x batch => exact (hold.joining id hid).mono (List.Subset.refl _) hbegins
      | initialized | joined => cases hdue
      | _ => cases hid
  | fall hf =>
    cases hf with
    | failed hp =>
      obtain ⟨-, heach⟩ := hold.plays hp
      exact ⟨heach.append fun mark hmem _ id hid => absurd hid (g.phase.calm_losses.join? hmem id), nofun⟩
  | hosted c => exact ⟨hold.joined.concat nofun, nofun⟩
  | edited f => exact ⟨hold.joined, nofun⟩

theorem Trail.opens {ops : List (HostOp κ ω)} {past : List (Station κ ω)} {w : ω}
    (h : Trail b ops ⟨.idle, {}, w, []⟩ past g) : g.Opens b past := by
  induction h with
  | start => exact ⟨.nil, nofun⟩
  | step h hs ih => exact ih.leg hs

/-- By the end of a history, every call of `attach` follows a good `init` of the same component. -/
theorem Trodden.opened {w : ω} {ops : List (HostOp κ ω)} {past : List (Station κ ω)}
    {last : Station κ ω} (h : Trodden b w ops past last) :
    (recording b w ops).2.world.2.Each fun before mark => ∀ id, mark.join? = some id →
      Opened b past id before := by
  have hopens := h.trail.opens
  by_cases hok : (ending b w ops).1 = .ok ()
  · have hjoined := hopens.joined
    rwa [h.ended hok] at hjoined
  · rcases h.cut hok with ⟨-, heq⟩ | ⟨callback, self, component, crash, hp⟩
    · exact heq ▸ hopens.joined
    · exact (hopens.plays hp).2

end Opens

/-- Between two components of a batch, and outside of the attach pass, everybody has been initialized, or has
been stopped first, or is new and still waits. -/
theorem Course.through {past : List (Moment κ)} {m : Moment κ} (h : Course past m)
    (hp : m.phase.starting = none) (id : ComponentId) :
    (id ∈ m.journal.inits ∨ m.scene.isDone id = true) ∨
      id ∈ m.phase.batch ++ m.scene.attachQueue ∧ m.scene.lifecycle? id = some .new := by
  cases ht : m.scene.slot? id with
  | none => exact .inl (.inr (Scene.isDone_of_no_slot ht))
  | some t =>
    have hfits := h.sound.scene.fits t (Scene.slot?_mem ht)
    rw [hp] at hfits
    obtain rfl := Scene.slot?_id ht
    cases hstate : t.state with
    | new =>
      refine .inr ⟨(hfits.queued hstate).resolve_left nofun, ?_⟩
      rw [Scene.lifecycle?_of_slot ht, hstate]
    | initialized => cases hfits.initialized hstate
    | running =>
      rcases h.timed.seen _ t ht (h.marked.running _ t ht hstate) with ⟨s, hmem⟩ | ⟨-, hdue⟩
      · exact .inl (.inl (Journal.mem_inits hmem))
      · cases hp.symm.trans (Phase.starting_of_init hdue)
    | finished | detached | removed =>
      refine .inl (.inr ?_)
      rw [Scene.isDone_of_slot ht, hstate]
      rfl

end FrameChain
