import FrameChain.Proofs.Attachment

set_option autoImplicit false

/-! An update is five turns in a row, one for each of its periods, and the first that fails is the last.
Each period is looked at on its own, from the setting in which it opens to the one in which it closes.
-/
namespace FrameChain

variable {κ ω : Type} [Named κ]

/-- Steps between phases of this kind keep the property, at all moments of a history. -/
def Steady (G : Phase κ → Prop) (P : Moment κ → Prop) : Prop :=
  ∀ past m m', Course past m → G m.phase → G m'.phase → P m → Onward m m' → P m'

structure Moment.Within (G : Phase κ → Prop) (P : Moment κ → Prop) (m : Moment κ) : Prop where
  kind : G m.phase
  path : Path ⟨.idle, none, {}, []⟩ m
  holds : P m

/-- How a turn was broken off at such a moment: by the failure of the callback that ran, or by a crash. -/
inductive Halted (G : Phase κ → Prop) (P : Moment κ → Prop) : Halt → Setting κ (ω × Journal κ) → Prop
  | failed {f : Failure} {p : Phase κ} {self : Caller} {s : Scene κ} {j : Journal κ} (w : ω)
      (component : κ) (h : Moment.Within G P ⟨p, some self, s, j⟩) :
      Halted G P (.failure f) ⟨p.recover (s.putBack self.component component), w, j ++ p.losses⟩
  | crashed {c : Crash} {p : Phase κ} {calling : Option Caller} {σ : Setting κ (ω × Journal κ)}
      (h : Moment.Within G P ⟨p, calling, σ.scene, σ.world.2⟩) : Halted G P (.crash c) σ

section Steady

variable {b : Behaviour κ ω} {G G' : Phase κ → Prop} {P : Moment κ → Prop}

theorem steady_true : Steady G fun _ => True := fun _ _ _ _ _ _ _ _ => trivial

theorem Steady.mono (h : Steady G P) (hG : ∀ p, G' p → G p) : Steady G' P :=
  fun past m m' hcourse hp hp' => h past m m' hcourse (hG _ hp) (hG _ hp')

omit [Named κ] in
theorem busy_of_period {period : Period} (p : Phase κ) (hp : p.period? = some period) : p ≠ .idle :=
  Turn.period_busy (fun _ hbusy => hbusy) p hp

theorem Moment.Within.mono {m : Moment κ} (h : m.Within G P) (hG : ∀ p, G p → G' p) : m.Within G' P :=
  ⟨hG _ h.kind, h.path, h.holds⟩

theorem Halted.mono {halt : Halt} {σ : Setting κ (ω × Journal κ)} (h : Halted G P halt σ)
    (hG : ∀ p, G p → G' p) : Halted G' P halt σ := by
  cases h with
  | failed w component h => exact .failed w component (h.mono hG)
  | crashed h => exact .crashed (h.mono hG)

theorem Moment.Within.onward {m m' : Moment κ} (hP : Steady G P) (h : m.Within G P)
    (ho : Onward m m') (hkind : G m'.phase) : m'.Within G P := by
  obtain ⟨past, hcourse⟩ := Course.of_path h.path
  exact ⟨hkind, h.path.tail (.onward ho), hP past m m' hcourse h.kind hkind h.holds ho⟩

theorem Station.Plays.within {g : Station κ ω} {callback : Callback} {self : Caller} {component : κ}
    {outcome : Except Crash (Except Failure Unit × κ)} {τ : Setting κ (ω × Journal κ)}
    (hplays : g.Plays b callback self component outcome τ) (hP : Steady G P)
    (h : g.moment.Within G P) : Moment.Within G P ⟨g.phase, some self, τ.scene, τ.world.2⟩ :=
  hplays.keeps (P := Moment.Within G P)
    (fun _ _ hm ho hphase _ => hm.onward hP ho (hphase ▸ h.kind)) h

theorem closed_within (hP : Steady G P) :
    Turn.Closed b G fun g : Station κ ω => g.moment.Within G P := by
  refine ⟨fun g h => Moment.Sound.empty.along h.path, fun g g' h hs hkind => ?_⟩
  cases hs with
  | move hmove => exact h.onward hP (.move hmove) hkind
  | act ha => exact h.onward hP (.act ha) hkind
  | called hplays => exact (hplays.within hP h).onward hP (.back _) hkind

theorem halted_of_ceases (hP : Steady G P) {halt : Halt} {σ : Setting κ (ω × Journal κ)}
    (h : Turn.Ceases b (fun g : Station κ ω => g.moment.Within G P) halt σ) : Halted G P halt σ := by
  cases halt with
  | failure f =>
    obtain ⟨g, hg, hfalls⟩ := h
    cases hfalls with
    | failed hplays => exact .failed _ _ (hplays.within hP hg)
  | crash c =>
    obtain ⟨g, hg, ⟨-, rfl⟩ | ⟨callback, self, component, crash, hplays⟩⟩ := h
    · exact .crashed hg
    · exact .crashed (hplays.within hP hg)

end Steady

namespace Period

def all : List Period := [attaching, delivering, updating, redelivering, retiring]

def before (period : Period) : List Period := all.takeWhile (· ≠ period)

def next? : Period → Option Period
  | attaching => some delivering
  | delivering => some updating
  | updating => some redelivering
  | redelivering => some retiring
  | retiring => none

def calls : Period → Callback → Bool
  | attaching, .init | attaching, .attach => true
  | delivering, .message _ | redelivering, .message _ => true
  | updating, .update .. => true
  | retiring, .finish | retiring, .detach | retiring, .remove => true
  | _, _ => false

def notes (period : Period) : Mark κ → Bool
  | .called callback _ _ => period.calls callback
  | .asked .. => true
  | .taken .. | .served .. | .passed .. => period = delivering || period = redelivering
  | .forgotten _ => period = retiring
  | .hosted .. => false

section Turns

variable (b : Behaviour κ ω) (fuel : Nat) (delta absolute : Seconds)

def turn : Period → Turn κ (ω × Journal κ) Unit
  | attaching => Scene.attachPass b.recorded absolute
  | delivering | redelivering => Scene.deliverRecorded b fuel
  | updating => do Scene.updateEach b.recorded delta absolute (← Turn.scene).running
  | retiring => Scene.retireRecorded b

/-- The turn of a period follows on what came before, unless that has failed. -/
def follow (before : Except Halt Unit × Setting κ (ω × Journal κ)) (period : Period) :
    Except Halt Unit × Setting κ (ω × Journal κ) :=
  match before with
  | (.ok _, σ) => (period.turn b fuel delta absolute).outcome σ
  | (.error halt, σ) => (.error halt, σ)

variable (σ : Setting κ (ω × Journal κ))

def opening (period : Period) : Except Halt Unit × Setting κ (ω × Journal κ) :=
  period.before.foldl (follow b fuel delta absolute) (.ok (), σ)

/-- How the update has come to the end of this period. -/
def closing (period : Period) : Except Halt Unit × Setting κ (ω × Journal κ) :=
  follow b fuel delta absolute (opening b fuel delta absolute σ period) period

def noted (period : Period) : Journal κ :=
  (closing b fuel delta absolute σ period).2.world.2.drop
    (opening b fuel delta absolute σ period).2.world.2.length

variable {b fuel delta absolute σ}

theorem opening_next {period later : Period} (h : period.next? = some later) :
    opening b fuel delta absolute σ later = closing b fuel delta absolute σ period := by
  cases period <;> cases h <;> rfl

theorem closing_of_ok {period : Period} {σ₁ : Setting κ (ω × Journal κ)}
    (h : opening b fuel delta absolute σ period = (.ok (), σ₁)) :
    closing b fuel delta absolute σ period = (period.turn b fuel delta absolute).outcome σ₁ := by
  rw [closing, h]
  rfl

theorem closing_of_error {period : Period} {halt : Halt} {σ₁ : Setting κ (ω × Journal κ)}
    (h : opening b fuel delta absolute σ period = (.error halt, σ₁)) :
    closing b fuel delta absolute σ period = (.error halt, σ₁) := by
  rw [closing, h]
  rfl

/-- A period opens well only after the one before has ended well. -/
theorem exists_opening {period later : Period} {σ₁ : Setting κ (ω × Journal κ)}
    (hn : period.next? = some later)
    (ho : opening b fuel delta absolute σ later = (.ok (), σ₁)) :
    closing b fuel delta absolute σ period = (.ok (), σ₁) ∧
      ∃ σ₀, opening b fuel delta absolute σ period = (.ok (), σ₀) := by
  rw [opening_next hn] at ho
  refine ⟨ho, ?_⟩
  cases hprevious : opening b fuel delta absolute σ period with
  | mk answer σ₀ =>
    cases answer with
    | ok u => exact ⟨σ₀, rfl⟩
    | error halt =>
      rw [closing_of_error hprevious] at ho
      cases ho

theorem exists_closing {σ' : Setting κ (ω × Journal κ)}
    (h : closing b fuel delta absolute σ retiring = (.ok (), σ')) (period : Period) :
    ∃ σ₁, closing b fuel delta absolute σ period = (.ok (), σ₁) := by
  have hbefore {period later : Period} (hn : period.next? = some later)
      (hclosed : ∃ σ₁, closing b fuel delta absolute σ later = (.ok (), σ₁)) :
      ∃ σ₁, closing b fuel delta absolute σ period = (.ok (), σ₁) := by
    obtain ⟨σ₂, hclosed⟩ := hclosed
    cases ho : opening b fuel delta absolute σ later with
    | mk answer σ₁ =>
      cases answer with
      | ok u => exact ⟨σ₁, (exists_opening hn ho).1⟩
      | error halt =>
        rw [closing_of_error ho] at hclosed
        cases hclosed
  have hredelivering := hbefore (rfl : redelivering.next? = _) ⟨σ', h⟩
  have hupdating := hbefore (rfl : updating.next? = _) hredelivering
  have hdelivering := hbefore (rfl : delivering.next? = _) hupdating
  cases period with
  | attaching => exact hbefore rfl hdelivering
  | delivering => exact hdelivering
  | updating => exact hupdating
  | redelivering => exact hredelivering
  | retiring => exact ⟨σ', h⟩

theorem outcome_bind_turn (t : Turn κ (ω × Journal κ) Unit) (period : Period) :
    (t >>= fun _ => period.turn b fuel delta absolute).outcome σ =
      follow b fuel delta absolute (t.outcome σ) period := by
  rw [Turn.outcome_bind]
  cases t.outcome σ with
  | mk answer σ' => cases answer <;> rfl

theorem outcome_updateRecorded :
    (Scene.updateRecorded b fuel delta absolute).outcome σ =
      closing b fuel delta absolute σ .retiring := by
  have hturns : Scene.updateRecorded b fuel delta absolute =
      ((((turn b fuel delta absolute .attaching) >>= fun _ => turn b fuel delta absolute .delivering) >>=
        fun _ => turn b fuel delta absolute .updating) >>=
          fun _ => turn b fuel delta absolute .redelivering) >>=
            fun _ => turn b fuel delta absolute .retiring := by
    simp only [Scene.updateRecorded, Scene.attachPass, turn, bind_assoc]
  rw [hturns, outcome_bind_turn, outcome_bind_turn, outcome_bind_turn, outcome_bind_turn]
  rfl

end Turns

section Ends

variable (delta absolute : Seconds)

def opened (s : Scene κ) : Period → Scene κ
  | attaching => { s with frame := s.frame + 1, absolute, attachQueue := [] }
  | _ => s

def entry (s : Scene κ) : Period → Phase κ
  | attaching => .attaching s.attachQueue
  | delivering => .dispatching false
  | updating => .updating delta absolute s.running
  | redelivering => .dispatching true
  | retiring => .settling

def exit : Period → Phase κ
  | attaching => .attaching []
  | delivering => .dispatching false
  | updating => .updating delta absolute []
  | redelivering => .dispatching true
  | retiring => .settling

def Done (s : Scene κ) : Period → Prop
  | delivering | redelivering => s.nextDelivery? = none
  | retiring => s.removalQueue = [] ∧ s.stopping = []
  | attaching | updating => True

def first (period : Period) (σ : Setting κ (ω × Journal κ)) : Moment κ :=
  ⟨period.entry delta absolute σ.scene, none, period.opened absolute σ.scene, σ.world.2⟩

def last (period : Period) (σ : Setting κ (ω × Journal κ)) : Moment κ :=
  ⟨period.exit delta absolute, none, σ.scene, σ.world.2⟩

variable {delta absolute} {b : Behaviour κ ω} {fuel : Nat} {σ σ₁ : Setting κ (ω × Journal κ)}
  {period : Period} {A : Station κ ω → Prop} {P : Moment κ → Prop}

omit [Named κ] in
theorem kind_entry (s : Scene κ) : (period.entry delta absolute s).period? = some period := by
  cases period <;> rfl

omit [Named κ] in
theorem move_next {later : Period} {s : Scene κ} (h : period.next? = some later) (hd : period.Done s) :
    Move s (period.exit delta absolute) (later.entry delta absolute s) ∧ later.opened absolute s = s := by
  cases period with
  | attaching =>
    cases h
    exact ⟨.attached, rfl⟩
  | delivering =>
    cases h
    exact ⟨.quiet hd, rfl⟩
  | updating =>
    cases h
    exact ⟨.updated, rfl⟩
  | redelivering =>
    cases h
    exact ⟨.quietAgain hd, rfl⟩
  | retiring => cases h

theorem ends_turn (h : Turn.Closed b (fun p => p.period? = some period) A)
    (hA : A ⟨period.entry delta absolute σ.scene, { σ with scene := period.opened absolute σ.scene }⟩) :
    Turn.Ends (fun _ σ' => A ⟨period.exit delta absolute, σ'⟩ ∧ period.Done σ'.scene)
      (Turn.Ceases b A) ((period.turn b fuel delta absolute).outcome σ) := by
  cases period with
  | attaching =>
    have hattaching : ∀ p : Phase κ, p.attaches = true → p.period? = some .attaching := by
      intro p hp
      cases p <;> first | rfl | cases hp
    exact (h.triple_attachEach hattaching σ.scene.attachQueue _ hA).imp (fun _ _ hA => ⟨hA, trivial⟩)
      fun _ _ => Turn.ceases_of_breaks
  | delivering => exact h.triple_deliver false (fun _ hp => hp) fuel σ hA
  | updating =>
    have hupdate : Turn.Triple (fun σ => A ⟨.updating delta absolute σ.scene.running, σ⟩)
        (do Scene.updateEach b.recorded delta absolute (← Turn.scene).running)
        (fun _ σ => A ⟨.updating delta absolute [], σ⟩) (Turn.Ceases b A) := by
      refine Turn.triple_scene fun s => (h.triple_updateEach (fun _ hp => hp) _ _ _).weaken ?_
      rintro σ ⟨hA, rfl⟩
      exact hA
    exact (hupdate σ hA).imp (fun _ _ hA => ⟨hA, trivial⟩) fun _ _ hend => hend
  | redelivering => exact h.triple_deliver true (fun _ hp => hp) fuel σ hA
  | retiring =>
    have hretire : Turn.Triple (fun σ => A ⟨.settling, σ⟩) (Scene.retireRecorded b)
        (fun _ σ => A ⟨.settling, σ⟩ ∧ σ.scene.removalQueue = [] ∧ σ.scene.stopping = [])
        (Turn.Ceases b A) :=
      Turn.triple_scene fun s => (h.triple_retireRounds (fun _ hp => hp) _).weaken fun _ hA => hA.1
    exact hretire σ hA

/-- What the steps of a period keep holds in the end. -/
theorem ends_closing (ho : opening b fuel delta absolute σ period = (.ok (), σ₁))
    (hpath : Path ⟨.idle, none, {}, []⟩ (period.first delta absolute σ₁))
    (hP : Steady (fun p => p.period? = some period) P) (h : P (period.first delta absolute σ₁)) :
    Turn.Ends
      (fun _ σ' => Moment.Within (fun p => p.period? = some period) P (period.last delta absolute σ') ∧
        period.Done σ'.scene)
      (Halted (fun p => p.period? = some period) P) (closing b fuel delta absolute σ period) := by
  rw [closing_of_ok ho]
  exact (ends_turn (closed_within hP) ⟨kind_entry σ₁.scene, hpath, h⟩).imp (fun _ _ hend => hend)
    fun _ _ => halted_of_ceases hP

theorem opens_next {later : Period} (hn : period.next? = some later) (hP : Steady (· ≠ .idle) P)
    (hfirst : ∀ σ₁, opening b fuel delta absolute σ period = (.ok (), σ₁) →
      (period.first delta absolute σ₁).Within (· ≠ .idle) P)
    (ho : opening b fuel delta absolute σ later = (.ok (), σ₁)) :
    (later.first delta absolute σ₁).Within (· ≠ .idle) P ∧ period.Done σ₁.scene := by
  obtain ⟨hclosed, σ₀, hprevious⟩ := exists_opening hn ho
  have hfrom := hfirst σ₀ hprevious
  have hends := ends_closing hprevious hfrom.path (hP.mono busy_of_period) hfrom.holds
  rw [hclosed] at hends
  obtain ⟨hlast, hdone⟩ := hends
  have hmove : Move σ₁.scene (period.exit delta absolute) (later.entry delta absolute σ₁.scene) ∧
      later.opened absolute σ₁.scene = σ₁.scene := move_next hn hdone
  obtain ⟨hmove, hsame⟩ := hmove
  refine ⟨?_, hdone⟩
  have hnext := (hlast.mono busy_of_period).onward hP (.move hmove)
    (busy_of_period _ (kind_entry σ₁.scene))
  rw [first, hsame]
  exact hnext

/-- What all steps of an update keep holds wherever one of its periods opens. -/
theorem opens_within (hP : Steady (· ≠ .idle) P)
    (hσ : Path ⟨.idle, none, {}, []⟩ ⟨.idle, none, σ.scene, σ.world.2⟩)
    (h : P (attaching.first delta absolute σ))
    (ho : opening b fuel delta absolute σ period = (.ok (), σ₁)) :
    (period.first delta absolute σ₁).Within (· ≠ .idle) P := by
  have hattaching : ∀ σ₁, opening b fuel delta absolute σ attaching = (.ok (), σ₁) →
      (attaching.first delta absolute σ₁).Within (· ≠ .idle) P := by
    intro σ₁ ho
    cases ho
    have hbegin : Act σ.scene .idle (.attaching σ.scene.attachQueue)
        (attaching.opened absolute σ.scene) [] := .begin
    have hpath := hσ.tail (.onward (.act hbegin))
    rw [List.append_nil] at hpath
    exact ⟨nofun, hpath, h⟩
  have hdelivering := fun σ₁ (ho : opening b fuel delta absolute σ delivering = (.ok (), σ₁)) =>
    (opens_next rfl hP hattaching ho).1
  have hupdating := fun σ₁ (ho : opening b fuel delta absolute σ updating = (.ok (), σ₁)) =>
    (opens_next rfl hP hdelivering ho).1
  have hredelivering := fun σ₁ (ho : opening b fuel delta absolute σ redelivering = (.ok (), σ₁)) =>
    (opens_next rfl hP hupdating ho).1
  cases period with
  | attaching => exact hattaching σ₁ ho
  | delivering => exact hdelivering σ₁ ho
  | updating => exact hupdating σ₁ ho
  | redelivering => exact hredelivering σ₁ ho
  | retiring => exact (opens_next rfl hP hredelivering ho).1

theorem opens (hσ : Path ⟨.idle, none, {}, []⟩ ⟨.idle, none, σ.scene, σ.world.2⟩)
    (ho : opening b fuel delta absolute σ period = (.ok (), σ₁)) :
    Path ⟨.idle, none, {}, []⟩ (period.first delta absolute σ₁) :=
  (opens_within steady_true hσ trivial ho).path

theorem done_of_opening (hσ : Path ⟨.idle, none, {}, []⟩ ⟨.idle, none, σ.scene, σ.world.2⟩)
    {later : Period} (hn : period.next? = some later)
    (ho : opening b fuel delta absolute σ later = (.ok (), σ₁)) : period.Done σ₁.scene :=
  (opens_next hn steady_true (fun _ => opens_within steady_true hσ trivial) ho).2

theorem ends_through (hP : Steady (· ≠ .idle) P)
    (hσ : Path ⟨.idle, none, {}, []⟩ ⟨.idle, none, σ.scene, σ.world.2⟩)
    (h : P (attaching.first delta absolute σ)) (period : Period) :
    Turn.Ends
      (fun _ σ' => (period.last delta absolute σ').Within (· ≠ .idle) P ∧ period.Done σ'.scene)
      (Halted (· ≠ .idle) P) (closing b fuel delta absolute σ period) := by
  have hopened : ∀ (period : Period) (σ₁ : Setting κ (ω × Journal κ)),
      opening b fuel delta absolute σ period = (.ok (), σ₁) →
      Turn.Ends
        (fun _ σ' => (period.last delta absolute σ').Within (· ≠ .idle) P ∧ period.Done σ'.scene)
        (Halted (· ≠ .idle) P) (closing b fuel delta absolute σ period) := by
    intro period σ₁ ho
    have hfrom := opens_within hP hσ h ho
    exact (ends_closing ho hfrom.path (hP.mono busy_of_period) hfrom.holds).imp
      (fun _ _ hend => ⟨hend.1.mono busy_of_period, hend.2⟩) fun _ _ hend => hend.mono busy_of_period
  have hlater : ∀ period later : Period, period.next? = some later →
      Turn.Ends
        (fun _ σ' => (period.last delta absolute σ').Within (· ≠ .idle) P ∧ period.Done σ'.scene)
        (Halted (· ≠ .idle) P) (closing b fuel delta absolute σ period) →
      Turn.Ends
        (fun _ σ' => (later.last delta absolute σ').Within (· ≠ .idle) P ∧ later.Done σ'.scene)
        (Halted (· ≠ .idle) P) (closing b fuel delta absolute σ later) := by
    intro period later hn hends
    cases ho : opening b fuel delta absolute σ later with
    | mk answer σ₁ =>
      cases answer with
      | ok u => exact hopened later σ₁ ho
      | error halt =>
        rw [closing_of_error ho]
        rwa [← opening_next hn, ho] at hends
  have hattaching := hopened attaching σ rfl
  have hdelivering := hlater attaching delivering rfl hattaching
  have hupdating := hlater delivering updating rfl hdelivering
  have hredelivering := hlater updating redelivering rfl hupdating
  cases period with
  | attaching => exact hattaching
  | delivering => exact hdelivering
  | updating => exact hupdating
  | redelivering => exact hredelivering
  | retiring => exact hlater redelivering retiring rfl hredelivering

theorem path_closing (hσ : Path ⟨.idle, none, {}, []⟩ ⟨.idle, none, σ.scene, σ.world.2⟩)
    (period : Period) : ∃ p calling, Path ⟨.idle, none, {}, []⟩ ⟨p, calling,
      (closing b fuel delta absolute σ period).2.scene,
      (closing b fuel delta absolute σ period).2.world.2⟩ := by
  have hends : Turn.Ends _ _ (closing b fuel delta absolute σ period) :=
    ends_through (P := fun _ => True) steady_true hσ trivial period
  cases hc : closing b fuel delta absolute σ period with
  | mk answer σ₂ =>
    rw [hc] at hends
    cases answer with
    | ok u => exact ⟨_, _, hends.1.path⟩
    | error halt =>
      cases hends with
      | failed w component h => exact ⟨_, _, h.path.tail (.fail component)⟩
      | crashed h => exact ⟨_, _, h.path⟩

end Ends

omit [Named κ] in
theorem calls_of_callee {p : Phase κ} {period : Period} {callback : Callback} {id : ComponentId}
    (hp : p.period? = some period) (hc : p.callee = some (callback, id)) :
    period.calls callback = true := by
  cases p with
  | reaching late m recipient rest =>
    cases hc
    cases hp
    cases late <;> rfl
  | ending slot doomed rest =>
    cases hc
    cases hp
    split <;> rfl
  | initializing | joining | ticking | removing =>
    cases hc
    cases hp
    rfl
  | _ => cases hc

end Period

def Mark.isForgotten : Mark κ → Bool
  | .forgotten _ => true
  | _ => false

namespace Period

omit [Named κ] in
theorem notes_act {s s' : Scene κ} {p p' : Phase κ} {marks : Journal κ} {period : Period}
    (ha : Act s p p' s' marks) (hp : p.period? = some period) :
    ∀ mark ∈ marks, period.notes mark = true ∧ mark.isForgotten = false := by
  cases ha with
  | @take late | @serve late | @pass late =>
    intro mark hmark
    rw [List.mem_singleton.mp hmark]
    cases hp
    cases late <;> exact ⟨rfl, rfl⟩
  | _ => exact List.forall_mem_nil _

theorem notes_onward {m m' : Moment κ} {period : Period} (ho : Onward m m')
    (hp : m.phase.period? = some period) :
    ∃ marks, m'.journal = m.journal ++ marks ∧
      ∀ mark ∈ marks, period.notes mark = true ∧ mark.isForgotten = false := by
  cases ho with
  | hosted => cases hp
  | move | back => exact ⟨[], (List.append_nil _).symm, List.forall_mem_nil _⟩
  | act ha => exact ⟨_, rfl, notes_act ha hp⟩
  | call hc => exact ⟨_, rfl, List.forall_mem_singleton.mpr ⟨calls_of_callee hp hc, rfl⟩⟩
  | ask => exact ⟨_, rfl, List.forall_mem_singleton.mpr ⟨rfl, rfl⟩⟩

omit [Named κ] in
theorem notes_losses {p : Phase κ} {period : Period} (hp : p.period? = some period) :
    ∀ mark ∈ p.losses, period.notes (κ := κ) mark = true := by
  cases p with
  | ending | removing =>
    cases hp
    exact List.forall_mem_singleton.mpr rfl
  | _ => exact List.forall_mem_nil _

def Notes (period : Period) (j₀ : Journal κ) (m : Moment κ) : Prop :=
  ∃ marks, m.journal = j₀ ++ marks ∧
    ∀ mark ∈ marks, period.notes mark = true ∧ mark.isForgotten = false

theorem steady_notes (period : Period) (j₀ : Journal κ) :
    Steady (fun p => p.period? = some period) (period.Notes j₀) := by
  intro past m m' _ hp _ ⟨marks, hj, hmarks⟩ ho
  obtain ⟨more, hmore, hall⟩ := notes_onward ho hp
  refine ⟨marks ++ more, by rw [hmore, hj, List.append_assoc], fun mark hmem => ?_⟩
  exact (List.mem_append.mp hmem).elim (hmarks mark) (hall mark)

section Noted

variable {b : Behaviour κ ω} {fuel : Nat} {delta absolute : Seconds} {σ : Setting κ (ω × Journal κ)}

theorem noted_of_append {period : Period} {marks : Journal κ}
    (h : (closing b fuel delta absolute σ period).2.world.2 =
      (opening b fuel delta absolute σ period).2.world.2 ++ marks) :
    noted b fuel delta absolute σ period = marks := by
  rw [noted, h, List.drop_left]

theorem noted_of_error {period : Period} {halt : Halt}
    (h : (opening b fuel delta absolute σ period).1 = .error halt) :
    noted b fuel delta absolute σ period = [] := by
  cases ho : opening b fuel delta absolute σ period with
  | mk answer σ₁ =>
    rw [ho] at h
    cases h
    refine noted_of_append ?_
    rw [closing_of_error ho, ho, List.append_nil]

theorem closing_journal (hσ : Path ⟨.idle, none, {}, []⟩ ⟨.idle, none, σ.scene, σ.world.2⟩)
    (period : Period) :
    (closing b fuel delta absolute σ period).2.world.2 =
        (opening b fuel delta absolute σ period).2.world.2 ++ noted b fuel delta absolute σ period ∧
      (∀ mark ∈ noted b fuel delta absolute σ period, period.notes mark = true) ∧
      ((closing b fuel delta absolute σ period).1 = .ok () →
        ∀ mark ∈ noted b fuel delta absolute σ period, mark.isForgotten = false) := by
  suffices h : ∃ marks, (closing b fuel delta absolute σ period).2.world.2 =
      (opening b fuel delta absolute σ period).2.world.2 ++ marks ∧
        (∀ mark ∈ marks, period.notes mark = true) ∧
        ((closing b fuel delta absolute σ period).1 = .ok () →
          ∀ mark ∈ marks, mark.isForgotten = false) by
    obtain ⟨marks, hj, hmarks⟩ := h
    rw [noted_of_append hj]
    exact ⟨hj, hmarks⟩
  cases ho : opening b fuel delta absolute σ period with
  | mk answer σ₁ =>
    cases answer with
    | error halt =>
      rw [closing_of_error ho]
      exact ⟨[], (List.append_nil _).symm, List.forall_mem_nil _, nofun⟩
    | ok u =>
      have hends := ends_closing ho (opens hσ ho) (steady_notes period σ₁.world.2)
        ⟨[], (List.append_nil _).symm, List.forall_mem_nil _⟩
      cases hc : closing b fuel delta absolute σ period with
      | mk answer σ₂ =>
        rw [hc] at hends
        cases answer with
        | ok u =>
          obtain ⟨marks, hj, hmarks⟩ := hends.1.holds
          exact ⟨marks, hj, fun mark hmem => (hmarks mark hmem).1, fun _ mark hmem => (hmarks mark hmem).2⟩
        | error halt =>
          cases hends with
          | @failed _ p self s j w component h =>
            obtain ⟨marks, hj, hmarks⟩ := h.holds
            change j = _ at hj
            refine ⟨marks ++ p.losses, by rw [hj, List.append_assoc], ?_, nofun⟩
            exact List.forall_mem_append.mpr ⟨fun mark hmem => (hmarks mark hmem).1,
              notes_losses h.kind⟩
          | crashed h =>
            obtain ⟨marks, hj, hmarks⟩ := h.holds
            exact ⟨marks, hj, fun mark hmem => (hmarks mark hmem).1, nofun⟩

/-- The journal of an update is put together from those of its periods. -/
theorem journal_closing (hσ : Path ⟨.idle, none, {}, []⟩ ⟨.idle, none, σ.scene, σ.world.2⟩) :
    (closing b fuel delta absolute σ retiring).2.world.2 =
      σ.world.2 ++ all.flatMap (noted b fuel delta absolute σ) := by
  have hlater (period later : Period) (hn : period.next? = some later) :
      (closing b fuel delta absolute σ later).2.world.2 =
        (closing b fuel delta absolute σ period).2.world.2 ++ noted b fuel delta absolute σ later := by
    rw [← opening_next hn]
    exact (closing_journal hσ later).1
  have hfirst : (closing b fuel delta absolute σ attaching).2.world.2 =
      σ.world.2 ++ noted b fuel delta absolute σ attaching := (closing_journal hσ attaching).1
  rw [hlater redelivering retiring rfl, hlater updating redelivering rfl, hlater delivering updating rfl,
    hlater attaching delivering rfl, hfirst]
  simp only [all, List.flatMap_cons, List.flatMap_nil, List.append_nil, List.append_assoc]

end Noted

end Period

end FrameChain
