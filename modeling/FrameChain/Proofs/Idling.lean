import FrameChain.Engine
import FrameChain.Proofs.Admission
import FrameChain.Proofs.Attachment
import FrameChain.Proofs.Settlement

set_option autoImplicit false

/-! Idle only means that every component that is left has stopped. But an update that ends well has
retired those, so a scene that is idle after it has no component at all, and nobody who could ask for
one. -/
namespace FrameChain

variable {κ ω τ υ : Type}

namespace Scene

structure Still (s : Scene κ) : Prop where
  slots : s.slots = []
  topics : s.bus.topics = []
  interrupted : s.interrupted = none
  removals : s.removalQueue = []

/-- What an update leaves of a scene that stands still. -/
def idleFrame (s : Scene κ) (absolute : Seconds) : Scene κ :=
  { s with frame := s.frame + 1, absolute, attachQueue := [], bus := { s.bus with queue := [] } }

theorem foldl_idleFrame (s : Scene κ) (times : List Seconds) :
    (times.foldl idleFrame s).entities = s.entities ∧ (times.foldl idleFrame s).events = s.events := by
  induction times generalizing s with
  | nil => exact ⟨rfl, rfl⟩
  | cons absolute rest ih => exact ih (s.idleFrame absolute)

namespace Still

variable {s : Scene κ}

theorem idleFrame (h : s.Still) (absolute : Seconds) : (s.idleFrame absolute).Still :=
  ⟨h.slots, h.topics, h.interrupted, h.removals⟩

theorem drainEvents (h : s.Still) : s.drainEvents.2.Still :=
  ⟨h.slots, h.topics, h.interrupted, h.removals⟩

theorem slot?_eq_none (h : s.Still) (id : ComponentId) : s.slot? id = none := by
  rw [slot?, h.slots, List.find?_nil]

theorem lifecycle?_ne_new (h : s.Still) (id : ComponentId) : s.lifecycle? id ≠ some .new := by
  intro hnew
  rw [lifecycle?, h.slot?_eq_none] at hnew
  dsimp only at hnew
  split at hnew <;> cases hnew

theorem subscribers (h : s.Still) (key : String) : s.bus.subscribers key = [] := by
  rw [Bus.subscribers, h.topics]
  rfl

theorem running (h : s.Still) : s.running = [] := by
  rw [Scene.running, h.slots]
  rfl

theorem stopping (h : s.Still) : s.stopping = [] := by
  rw [Scene.stopping, h.slots]
  rfl

end Still

theorem drainEvents_of_drained {s : Scene κ} (h : s.events = []) : s.drainEvents.2 = s := by
  rw [drainEvents, ← h]

theorem WellFormed.still {s : Scene κ} (h : s.WellFormed) (hi : s.interrupted = none)
    (hremovals : s.removalQueue = []) (hstopping : s.stopping = []) (hidle : s.isIdle = true) :
    s.Still := by
  have hslots : s.slots = [] := by
    refine List.eq_nil_iff_forall_not_mem.mpr fun t ht => ?_
    have hdone := List.all_eq_true.mp hidle t ht
    exact Bool.false_ne_true ((stopping_eq_nil_iff.mp hstopping t ht).symm.trans hdone)
  refine ⟨hslots, List.eq_nil_iff_forall_not_mem.mpr fun topic htopic => ?_, hi, hremovals⟩
  -- A key without subscribers is not kept, and a subscriber has a slot.
  obtain ⟨sub, hsub⟩ := List.exists_mem_of_ne_nil _ (h.tidy.kept topic htopic)
  obtain ⟨t, ht, -⟩ := h.held sub.component (Bus.mem_holders.mpr ⟨topic, htopic, sub, hsub, rfl⟩)
  rw [hslots] at ht
  exact absurd ht List.not_mem_nil

end Scene

/-- All that happens is that messages leave the queue, each of them for nobody. -/
def Journal.Unheard (marks : Journal κ) : Prop :=
  ∀ mark ∈ marks, ∃ s m, mark = .taken s ⟨m, []⟩

theorem Journal.Unheard.append {marks more : Journal κ} (h : marks.Unheard) (hmore : more.Unheard) :
    Journal.Unheard (marks ++ more) :=
  fun mark hmark => (List.mem_append.mp hmark).elim (h mark) (hmore mark)

variable [Named κ]

namespace Turn

open Scene

variable (b : Behaviour κ ω) {σ : Setting κ (ω × Journal κ)}

theorem outcome_attachEach_still (batch : List ComponentId) {σ : Setting κ ω} (h : σ.scene.Still) :
    (attachEach b batch).outcome σ = (.ok (), σ) := by
  induction batch with
  | nil => rfl
  | cons id rest ih =>
    have hone : (attachOne b id).outcome σ = (.ok (), σ) := by
      rw [attachOne, outcome_bind, outcome_scene]
      change outcome (if σ.scene.lifecycle? id = some .new then _ else pure ()) σ = _
      rw [if_neg (h.lifecycle?_ne_new id), outcome_pure]
    rw [attachEach, outcome_bind, outcome_attempt, hone]
    exact ih

theorem outcome_deliverRecorded_unheard (fuel : Nat) {m : Message} {bus : Bus}
    (hi : σ.scene.interrupted = none) (hpop : σ.scene.bus.pop? = some (m, bus))
    (hnobody : σ.scene.bus.subscribers m.key = []) :
    (deliverRecorded b (fuel + 1)).outcome σ = (deliverRecorded b fuel).outcome
      ⟨{ σ.scene with bus }, σ.world.1, σ.world.2 ++ [.taken σ.scene ⟨m, []⟩]⟩ := by
  have hnext : σ.scene.nextDelivery? = some (⟨m, []⟩, { σ.scene with bus }) := by
    simp only [nextDelivery?, hi, hpop, Option.map_some, hnobody]
  have hfree : σ.scene.interrupted.isNone = true := by rw [hi]; rfl
  rw [deliverRecorded, outcome_bind, outcome_scene]
  simp only [hnext, hfree, if_true]
  rfl

theorem outcome_deliverRecorded_still (fuel : Nat) (h : σ.scene.Still)
    (hf : σ.scene.bus.pending < fuel) :
    ∃ marks : Journal κ, marks.Unheard ∧ (deliverRecorded b fuel).outcome σ =
      (.ok (), ⟨{ σ.scene with bus := { σ.scene.bus with queue := [] } }, σ.world.1,
        σ.world.2 ++ marks⟩) := by
  induction fuel generalizing σ with
  | zero => exact absurd hf (Nat.not_lt_zero _)
  | succ fuel ih =>
    cases hqueue : σ.scene.bus.queue with
    | nil =>
      have hnone : σ.scene.nextDelivery? = none :=
        σ.scene.nextDelivery?_eq_none_iff.mpr ⟨h.interrupted, hqueue⟩
      refine ⟨[], fun _ hm => absurd hm List.not_mem_nil, ?_⟩
      rw [deliverRecorded, outcome_bind, outcome_scene]
      simp only [hnone, outcome_pure, List.append_nil, ← hqueue]
    | cons m rest =>
      let bus : Bus := { σ.scene.bus with queue := rest }
      have hpop : σ.scene.bus.pop? = some (m, bus) := (Bus.pop?_eq_some_iff _ _ _).mpr ⟨hqueue, rfl⟩
      have hless : bus.pending < fuel := by
        rw [Bus.pending, hqueue, List.length_cons] at hf
        exact Nat.lt_of_succ_lt_succ hf
      have hstill : ({ σ.scene with bus } : Scene κ).Still :=
        ⟨h.slots, h.topics, h.interrupted, h.removals⟩
      obtain ⟨marks, hmarks, hrest⟩ := ih (σ := ⟨{ σ.scene with bus }, σ.world.1,
        σ.world.2 ++ [.taken σ.scene ⟨m, []⟩]⟩) hstill hless
      refine ⟨.taken σ.scene ⟨m, []⟩ :: marks, ?_, ?_⟩
      · exact fun mark hmark => (List.mem_cons.mp hmark).elim (fun heq => ⟨_, _, heq⟩) (hmarks mark)
      · rw [outcome_deliverRecorded_unheard b fuel h.interrupted hpop (h.subscribers m.key), hrest,
          List.append_assoc]
        rfl

theorem outcome_retireRecorded_still (h : σ.scene.Still) :
    (retireRecorded b).outcome σ = (.ok (), σ) := by
  have hsame : σ.scene.detachDoomed = σ.scene := by
    unfold Scene.detachDoomed
    rw [h.removals, List.foldl_nil, ← h.removals]
  have hquiet : (σ.scene.removalQueue.isEmpty && σ.scene.detachDoomed.stopping.isEmpty) = true := by
    rw [hsame, h.removals, h.stopping]
    rfl
  rw [outcome_retireRecorded]
  simp only [retireRoundsRecorded, outcome_bind, outcome_scene, outcome_modifyScene]
  change outcome (if (σ.scene.removalQueue.isEmpty && σ.scene.detachDoomed.stopping.isEmpty) = true
    then pure () else _) { σ with scene := σ.scene.detachDoomed } = _
  rw [if_pos hquiet, outcome_pure, hsame]

theorem outcome_remainder_still {fuel : Nat} (delta absolute : Seconds) (h : σ.scene.Still)
    (hf : σ.scene.bus.pending < fuel) :
    ∃ marks : Journal κ, marks.Unheard ∧ (remainder b fuel delta absolute).outcome σ =
      (.ok (), ⟨{ σ.scene with bus := { σ.scene.bus with queue := [] } }, σ.world.1,
        σ.world.2 ++ marks⟩) := by
  let s : Scene κ := { σ.scene with bus := { σ.scene.bus with queue := [] } }
  have hs : s.Still := ⟨h.slots, h.topics, h.interrupted, h.removals⟩
  obtain ⟨marks, hmarks, hfirst⟩ := outcome_deliverRecorded_still b fuel h hf
  obtain ⟨more, hmore, hsecond⟩ := outcome_deliverRecorded_still b fuel
    (σ := ⟨s, σ.world.1, σ.world.2 ++ marks⟩) hs (Nat.zero_lt_of_lt hf)
  have hretire := outcome_retireRecorded_still b
    (σ := ⟨s, σ.world.1, σ.world.2 ++ marks ++ more⟩) hs
  refine ⟨marks ++ more, hmarks.append hmore, ?_⟩
  have hupdates : (updateEach b.recorded delta absolute s.running).outcome
      ⟨s, σ.world.1, σ.world.2 ++ marks⟩ = (.ok (), ⟨s, σ.world.1, σ.world.2 ++ marks⟩) := by
    rw [hs.running]
    rfl
  simp only [remainder, outcome_bind, outcome_scene, hfirst]
  rw [hupdates]
  dsimp only
  rw [hsecond]
  dsimp only
  rw [hretire, List.append_assoc]

/-- An update of a scene that stands still only drops what nobody waits for. -/
theorem outcome_updateRecorded_still {fuel : Nat} (delta absolute : Seconds) (h : σ.scene.Still)
    (hf : σ.scene.bus.pending < fuel) :
    ∃ marks : Journal κ, marks.Unheard ∧ (updateRecorded b fuel delta absolute).outcome σ =
      (.ok (), ⟨σ.scene.idleFrame absolute, σ.world.1, σ.world.2 ++ marks⟩) := by
  let s : Scene κ := { σ.scene with frame := σ.scene.frame + 1, absolute, attachQueue := [] }
  have hs : s.Still := ⟨h.slots, h.topics, h.interrupted, h.removals⟩
  have hattach : (attachPass b.recorded absolute).outcome σ = (.ok (), { σ with scene := s }) :=
    outcome_attachEach_still b.recorded σ.scene.attachQueue (σ := { σ with scene := s }) hs
  obtain ⟨marks, hmarks, hrest⟩ :=
    outcome_remainder_still b delta absolute (σ := { σ with scene := s }) hs hf
  refine ⟨marks, hmarks, ?_⟩
  rw [updateRecorded_eq_attachPass, outcome_bind, hattach]
  exact hrest

theorem outcome_update_still {s : Scene κ} {w : ω} {fuel : Nat} (delta absolute : Seconds)
    (h : s.Still) (hf : s.bus.pending < fuel) :
    (update b fuel delta absolute).outcome ⟨s, w⟩ = (.ok (), ⟨s.idleFrame absolute, w⟩) := by
  obtain ⟨marks, -, hrecorded⟩ :=
    outcome_updateRecorded_still b delta absolute (σ := ⟨s, w, []⟩) h hf
  have herase := erases_update b fuel delta absolute ⟨s, w, []⟩
  rw [hrecorded] at herase
  exact herase.symm

end Turn

structure Beat where
  fuel : Nat
  delta : Seconds
  absolute : Seconds

namespace Beat

variable (b : Behaviour κ ω)

def update (beat : Beat) : Turn κ ω Unit :=
  Scene.update b beat.fuel beat.delta beat.absolute

def updateRecorded (beat : Beat) : Turn κ (ω × Journal κ) Unit :=
  Scene.updateRecorded b beat.fuel beat.delta beat.absolute

theorem erases_updates (beats : List Beat) :
    Turn.Erases (beats.forM (updateRecorded b)) (beats.forM (update b)) := by
  induction beats with
  | nil => exact Turn.erases_pure ()
  | cons beat rest ih => exact Turn.erases_bind (Turn.erases_update b _ _ _) fun _ => ih

variable {b} {σ : Setting κ (ω × Journal κ)}

theorem outcome_updates_still {beats : List Beat} (h : σ.scene.Still)
    (hf : ∀ beat ∈ beats, σ.scene.bus.pending < beat.fuel) :
    ∃ marks : Journal κ, marks.Unheard ∧ (beats.forM (updateRecorded b)).outcome σ =
      (.ok (), ⟨(beats.map absolute).foldl Scene.idleFrame σ.scene, σ.world.1,
        σ.world.2 ++ marks⟩) := by
  induction beats generalizing σ with
  | nil => exact ⟨[], fun _ hm => absurd hm List.not_mem_nil, by rw [List.append_nil]; rfl⟩
  | cons beat rest ih =>
    obtain ⟨hbeat, hrest⟩ := List.forall_mem_cons.mp hf
    obtain ⟨marks, hmarks, hfirst⟩ :=
      Turn.outcome_updateRecorded_still b beat.delta beat.absolute h hbeat
    obtain ⟨more, hmore, hmany⟩ := ih
      (σ := ⟨σ.scene.idleFrame beat.absolute, σ.world.1, σ.world.2 ++ marks⟩) (h.idleFrame _)
      fun beat hmem => Nat.zero_lt_of_lt (hrest beat hmem)
    refine ⟨marks ++ more, hmarks.append hmore, ?_⟩
    change Turn.outcome (updateRecorded b beat >>= fun _ => rest.forM (updateRecorded b)) σ = _
    rw [Turn.outcome_bind, updateRecorded, hfirst]
    dsimp only
    rw [hmany, List.append_assoc]
    rfl

end Beat

namespace Scene

/-- Some history has left this scene behind, between two of its operations. -/
def Reached (s : Scene κ) : Prop := ∃ j, Path ⟨.idle, none, {}, []⟩ ⟨.idle, none, s, j⟩

variable {b : Behaviour κ ω} {fuel : Nat} {delta absolute : Seconds}

theorem still_of_updateRecorded {σ σ' : Setting κ (ω × Journal κ)}
    (hσ : Path ⟨.idle, none, {}, []⟩ ⟨.idle, none, σ.scene, σ.world.2⟩)
    (hu : (updateRecorded b fuel delta absolute).outcome σ = (.ok (), σ')) :
    Path ⟨.idle, none, {}, []⟩ ⟨.idle, none, σ'.scene, σ'.world.2⟩ ∧
      (σ'.scene.isIdle = true → σ'.scene.Still) := by
  have hsound : (⟨.idle, σ⟩ : Station κ ω).moment.Sound := Moment.Sound.empty.along hσ
  have hends : Turn.Ends _ _ ((updateRecorded b fuel delta absolute).outcome σ) :=
    Turn.triple_updateRecorded hsound fuel delta absolute σ .refl
  rw [hu] at hends
  obtain ⟨hend, hremovals, hstopping⟩ := hends
  have hpath := hσ.trans hend.stretch.path
  obtain ⟨past, hcourse⟩ := Course.of_path hpath
  have hscene : σ'.scene.WellFormed := hcourse.sound.scene
  refine ⟨hpath.tail (.onward (.move (.settled hremovals hstopping))), fun hidle => ?_⟩
  exact hscene.still (hcourse.admitting.quiet rfl) hremovals hstopping hidle

theorem Reached.update {s : Scene κ} {w : ω} {σ' : Setting κ ω} (h : s.Reached)
    (hu : (Scene.update b fuel delta absolute).outcome ⟨s, w⟩ = (.ok (), σ')) :
    σ'.scene.Reached ∧ (σ'.scene.isIdle = true → σ'.scene.Still) := by
  obtain ⟨j, hpath⟩ := h
  have herase := Turn.erases_update b fuel delta absolute ⟨s, w, j⟩
  cases ho : (updateRecorded b fuel delta absolute).outcome ⟨s, w, j⟩ with
  | mk answer σ =>
    rw [ho] at herase
    cases herase.trans hu
    obtain ⟨hreached, hstill⟩ := still_of_updateRecorded (σ := ⟨s, w, j⟩) hpath ho
    exact ⟨⟨_, hreached⟩, hstill⟩

theorem Reached.drainEvents {s : Scene κ} (h : s.Reached) : s.drainEvents.2.Reached := by
  obtain ⟨j, hpath⟩ := h
  exact ⟨_, hpath.tail (.onward (.hosted .drainEvents))⟩

end Scene

/-! ## Engines -/

namespace Engine

section Rules

omit [Named κ]

def outcome (d : Drive κ ω τ) (ρ : Run κ ω) : Except Halt τ × Run κ ω := StateT.run (ExceptT.run d) ρ

theorem outcome_pure (a : τ) (ρ : Run κ ω) : outcome (pure a : Drive κ ω τ) ρ = (.ok a, ρ) := rfl

theorem outcome_bind (d : Drive κ ω τ) (f : τ → Drive κ ω υ) (ρ : Run κ ω) :
    outcome (d >>= f) ρ =
      match outcome d ρ with
      | (.ok a, ρ) => outcome (f a) ρ
      | (.error h, ρ) => (.error h, ρ) := by
  change (StateT.run (ExceptT.run d >>= ExceptT.bindCont f) ρ) = _
  rw [StateT.run_bind]
  unfold outcome
  cases StateT.run (ExceptT.run d) ρ with
  | mk answer ρ' => cases answer <;> rfl

theorem outcome_bind_ok {d : Drive κ ω τ} {f : τ → Drive κ ω υ} {ρ ρ' : Run κ ω} {a : υ}
    (h : outcome (d >>= f) ρ = (.ok a, ρ')) :
    ∃ x ρ₁, outcome d ρ = (.ok x, ρ₁) ∧ outcome (f x) ρ₁ = (.ok a, ρ') := by
  rw [outcome_bind] at h
  cases hd : outcome d ρ with
  | mk answer ρ₁ =>
    rw [hd] at h
    cases answer with
    | ok x => exact ⟨x, ρ₁, rfl, h⟩
    | error halt => cases h

theorem outcome_turn (t : Turn κ ω τ) (ρ : Run κ ω) :
    outcome (turn t) ρ =
      ((t.outcome ⟨ρ.engine.scene, ρ.world⟩).1,
        ⟨{ ρ.engine with scene := (t.outcome ⟨ρ.engine.scene, ρ.world⟩).2.scene },
          (t.outcome ⟨ρ.engine.scene, ρ.world⟩).2.world⟩) := rfl

end Rules

variable {b : Behaviour κ ω} {fuel : Nat}

def Run.next (ρ : Run κ ω) (clock : Clock) (σ : Setting κ ω) : Run κ ω :=
  ⟨{ ρ.engine with clock, scene := σ.scene.drainEvents.2 }, σ.world⟩

theorem outcome_tick_paused {ρ : Run κ ω} (h : ρ.engine.clock.paused = true) :
    outcome (tick b fuel) ρ = (.error (.crash (.broken .tickWhileRunning)), ρ) := by
  rw [tick, outcome_bind]
  change outcome (if ρ.engine.clock.paused = true then _ else _) ρ = _
  rw [if_pos h]
  rfl

theorem outcome_tick {ρ : Run κ ω} {time : FrameTime} {clock : Clock}
    (hclock : ρ.engine.clock.advance = .ok (time, clock)) :
    outcome (tick b fuel) ρ =
      match (Scene.update b fuel time.delta time.absolute).outcome ⟨ρ.engine.scene, ρ.world⟩ with
      | (.ok _, σ) => (.ok σ.scene.events, ρ.next clock σ)
      | (.error halt, σ) => (.error halt, ⟨{ ρ.engine with clock, scene := σ.scene }, σ.world⟩) := by
  have hrunning : ¬ ρ.engine.clock.paused = true := by
    intro hpaused
    rw [Clock.advance, if_pos hpaused] at hclock
    cases hclock
  have hframe : outcome (tick b fuel) ρ =
      outcome (turn (Scene.update b fuel time.delta time.absolute) >>= fun _ => drain)
        { ρ with engine := { ρ.engine with clock } } := by
    rw [tick, outcome_bind]
    change outcome (if ρ.engine.clock.paused = true then _ else _) ρ = _
    rw [if_neg hrunning]
    simp only [hclock]
    rfl
  rw [hframe, outcome_bind, outcome_turn]
  dsimp only
  cases (Scene.update b fuel time.delta time.absolute).outcome ⟨ρ.engine.scene, ρ.world⟩ with
  | mk answer σ => cases answer <;> rfl

theorem exists_of_tick {ρ ρ' : Run κ ω} {events : List Event}
    (h : outcome (tick b fuel) ρ = (.ok events, ρ')) :
    ∃ time clock σ, ρ.engine.clock.advance = .ok (time, clock) ∧
      (Scene.update b fuel time.delta time.absolute).outcome ⟨ρ.engine.scene, ρ.world⟩ =
        (.ok (), σ) ∧ ρ' = ρ.next clock σ := by
  cases hclock : ρ.engine.clock.advance with
  | error broken =>
    obtain ⟨hpaused, -⟩ := (Clock.advance_eq_error_iff _ _).mp hclock
    rw [outcome_tick_paused hpaused] at h
    cases h
  | ok answer =>
    obtain ⟨time, clock⟩ := answer
    rw [outcome_tick hclock] at h
    cases hu : (Scene.update b fuel time.delta time.absolute).outcome ⟨ρ.engine.scene, ρ.world⟩ with
    | mk answer σ =>
      rw [hu] at h
      cases answer with
      | ok u =>
        cases h
        exact ⟨time, clock, σ, rfl, hu, rfl⟩
      | error halt => cases h

structure Run.Ticked (ρ : Run κ ω) : Prop where
  reached : ρ.engine.scene.Reached
  live : ρ.engine.clock.paused = false
  drained : ρ.engine.scene.events = []
  still : ρ.engine.scene.isIdle = true → ρ.engine.scene.Still

theorem ticked_of_tick {ρ ρ' : Run κ ω} {events : List Event} (hρ : ρ.engine.scene.Reached)
    (h : outcome (tick b fuel) ρ = (.ok events, ρ')) : ρ'.Ticked := by
  obtain ⟨time, clock, σ, hclock, hu, rfl⟩ := exists_of_tick h
  obtain ⟨hreached, hstill⟩ := hρ.update hu
  obtain ⟨hlater, -⟩ := Clock.advance_frame hclock
  refine ⟨hreached.drainEvents, ?_, rfl, fun hidle => (hstill hidle).drainEvents⟩
  change clock.paused = false
  refine Bool.eq_false_iff.mpr fun hpaused => ?_
  rw [hlater] at hpaused
  rw [Clock.advance, if_pos hpaused] at hclock
  cases hclock

theorem runFrames_succ_ok {ρ ρ' : Run κ ω} {events : List Event} {n : Nat}
    (h : outcome (runFrames b fuel (n + 1)) ρ = (.ok events, ρ')) :
    ∃ first rest ρ₁, outcome (tick b fuel) ρ = (.ok first, ρ₁) ∧
      outcome (runFrames b fuel n) ρ₁ = (.ok rest, ρ') ∧ events = first ++ rest := by
  obtain ⟨first, ρ₁, htick, hmore⟩ := outcome_bind_ok h
  obtain ⟨rest, ρ₂, hrest, hend⟩ := outcome_bind_ok hmore
  cases hend
  exact ⟨first, rest, ρ₁, htick, hrest, rfl⟩

theorem outcome_runFrames_succ {ρ ρ₁ ρ' : Run κ ω} {first rest : List Event} {n : Nat}
    (htick : outcome (tick b fuel) ρ = (.ok first, ρ₁))
    (hrest : outcome (runFrames b fuel n) ρ₁ = (.ok rest, ρ')) :
    outcome (runFrames b fuel (n + 1)) ρ = (.ok (first ++ rest), ρ') := by
  simp only [runFrames, outcome_bind, htick, hrest, outcome_pure]

theorem ticked_of_frames {ρ ρ' : Run κ ω} {events : List Event} {n : Nat}
    (hρ : ρ.engine.scene.Reached) (h : outcome (runFrames b fuel (n + 1)) ρ = (.ok events, ρ')) :
    ρ'.Ticked := by
  -- By induction on the frames, of which the last one counts.
  induction n generalizing ρ events with
  | zero =>
    obtain ⟨first, rest, ρ₁, htick, hrest, -⟩ := runFrames_succ_ok h
    cases hrest
    exact ticked_of_tick hρ htick
  | succ n ih =>
    obtain ⟨first, rest, ρ₁, htick, hrest, -⟩ := runFrames_succ_ok h
    exact ih (ticked_of_tick hρ htick).reached hrest

theorem outcome_runFrames_still {ρ : Run κ ω} (n : Nat) (h : ρ.engine.scene.Still)
    (hlive : ρ.engine.clock.paused = false) (hdrained : ρ.engine.scene.events = [])
    (hf : ρ.engine.scene.bus.pending < fuel) :
    ∃ (clock : Clock) (times : List Seconds), times.length = n ∧
      outcome (runFrames b fuel n) ρ = (.ok [],
        ⟨{ ρ.engine with clock, scene := times.foldl Scene.idleFrame ρ.engine.scene }, ρ.world⟩) := by
  induction n generalizing ρ with
  | zero => exact ⟨ρ.engine.clock, [], rfl, rfl⟩
  | succ n ih =>
    cases hclock : ρ.engine.clock.advance with
    | error broken =>
      obtain ⟨hpaused, -⟩ := (Clock.advance_eq_error_iff _ _).mp hclock
      cases hlive.symm.trans hpaused
    | ok answer =>
      obtain ⟨time, clock⟩ := answer
      obtain ⟨hlater, -⟩ := Clock.advance_frame hclock
      let scene := ρ.engine.scene.idleFrame time.absolute
      have htick : outcome (tick b fuel) ρ = (.ok [], ⟨{ ρ.engine with clock, scene }, ρ.world⟩) := by
        have hsame : scene.drainEvents.2 = scene := Scene.drainEvents_of_drained hdrained
        have hevents : scene.events = [] := hdrained
        rw [outcome_tick hclock, Turn.outcome_update_still b time.delta time.absolute h hf]
        simp only [Run.next]
        rw [hsame, hevents]
      obtain ⟨last, times, rfl, hrest⟩ := ih (ρ := ⟨{ ρ.engine with clock, scene }, ρ.world⟩)
        (h.idleFrame _) (by rw [hlater]; exact hlive) hdrained (Nat.zero_lt_of_lt hf)
      exact ⟨last, time.absolute :: times, rfl, outcome_runFrames_succ htick hrest⟩

/-- These frames end well, and they are as many as there are up to the first that leaves nothing to run, or
as many as are allowed. -/
structure Rests (b : Behaviour κ ω) (fuel max : Nat) (ρ ρ' : Run κ ω) (frames : Nat) : Prop where
  bound : frames ≤ max
  some_frame : 0 < max → 0 < frames
  ran : ∃ events, outcome (runFrames b fuel frames) ρ = (.ok events, ρ')
  /-- Before, something was left to run. -/
  busy : ∀ k, 0 < k → k < frames → ∃ events ρ₁, outcome (runFrames b fuel k) ρ = (.ok events, ρ₁) ∧
    ρ₁.engine.scene.isIdle = false
  idle : frames < max → ρ'.engine.scene.isIdle = true

theorem rests_of_runUntilIdle {ρ ρ' : Run κ ω} {max frames : Nat}
    (h : outcome (runUntilIdle b fuel max) ρ = (.ok frames, ρ')) : Rests b fuel max ρ ρ' frames := by
  induction max generalizing ρ frames with
  | zero =>
    cases h
    exact ⟨Nat.le_refl _, id, ⟨[], rfl⟩, fun k _ hk => absurd hk (Nat.not_lt_zero k),
      fun hlt => absurd hlt (Nat.not_lt_zero 0)⟩
  | succ max ih =>
    obtain ⟨events, ρ₁, htick, hmore⟩ := outcome_bind_ok h
    have hone : outcome (runFrames b fuel 1) ρ = (.ok (events ++ []), ρ₁) :=
      outcome_runFrames_succ htick rfl
    change outcome (if ρ₁.engine.scene.isIdle = true then pure 1 else _) ρ₁ = _ at hmore
    cases hidle : ρ₁.engine.scene.isIdle with
    | true =>
      rw [if_pos hidle, outcome_pure] at hmore
      cases hmore
      exact ⟨Nat.succ_le_succ (Nat.zero_le max), fun _ => Nat.one_pos, ⟨_, hone⟩,
        fun k hpos hk => absurd hk (Nat.not_lt.mpr hpos), fun _ => hidle⟩
    | false =>
      rw [if_neg (Bool.eq_false_iff.mp hidle)] at hmore
      obtain ⟨more, ρ₂, hrest, hend⟩ := outcome_bind_ok hmore
      cases hend
      have hrests := ih hrest
      obtain ⟨rest, hran⟩ := hrests.ran
      refine ⟨by have := hrests.bound; omega, fun _ => by omega,
        ⟨events ++ rest, by rw [Nat.add_comm]; exact outcome_runFrames_succ htick hran⟩, ?_,
        fun hlt => hrests.idle (by omega)⟩
      rintro (_ | _ | k) hpos hk
      · exact absurd hpos (Nat.lt_irrefl 0)
      · exact ⟨_, ρ₁, hone, hidle⟩
      · obtain ⟨early, ρ₃, hearly, hbusy⟩ := hrests.busy (k + 1) (Nat.succ_pos k) (by omega)
        exact ⟨_, ρ₃, outcome_runFrames_succ htick hearly, hbusy⟩

end Engine

/-- When an update ends well and leaves nothing to run, no component and no subscription is left. From then on
every update ends well: it calls nobody, notes no event and leaves the entities alone, and nothing changes
but the frame, the time and what has been waiting for nobody. So an engine that runs until it is idle runs
the least number of frames, and running on would have changed nothing else. -/
theorem idle_history (b : Behaviour κ ω) (w : ω) (ops : List (HostOp κ ω))
    (hops : (ending b w ops).1 = .ok ()) :
    let σ := (recording b w ops).2
    σ.erase = (ending b w ops).2 ∧
    (∀ fuel delta absolute,
      let update := (Scene.updateRecorded b fuel delta absolute).outcome σ
      (update.1, update.2.erase) = (Scene.update b fuel delta absolute).outcome σ.erase ∧
      ∀ σ', update = (.ok (), σ') → σ'.scene.isIdle = true →
        σ'.scene.slots = [] ∧ σ'.scene.bus.topics = [] ∧
        ∀ beats : List Beat, (∀ beat ∈ beats, σ'.scene.bus.pending < beat.fuel) →
          let later := (beats.forM (Beat.updateRecorded b)).outcome σ'
          let scene := (beats.map Beat.absolute).foldl Scene.idleFrame σ'.scene
          (later.1, later.2.erase) = (beats.forM (Beat.update b)).outcome σ'.erase ∧
          scene.entities = σ'.scene.entities ∧ scene.events = σ'.scene.events ∧
          ∃ marks : Journal κ, marks.Unheard ∧
            later = (.ok (), ⟨scene, σ'.world.1, σ'.world.2 ++ marks⟩)) ∧
    ∀ clock config fuel max frames ρ',
      let ρ : Engine.Run κ ω := ⟨{ clock, scene := σ.scene, config }, σ.world.1⟩
      Engine.outcome (Engine.runUntilIdle b fuel max) ρ = (.ok frames, ρ') →
        Engine.Rests b fuel max ρ ρ' frames ∧
        (0 < frames → ρ'.engine.scene.isIdle = true →
          ρ'.engine.scene.slots = [] ∧ ρ'.engine.scene.bus.topics = [] ∧
          ∀ more n, ρ'.engine.scene.bus.pending < more →
            ∃ (clock : Clock) (times : List Seconds), times.length = n ∧
              Engine.outcome (Engine.runFrames b more n) ρ' = (.ok [],
                ⟨{ ρ'.engine with clock, scene := times.foldl Scene.idleFrame ρ'.engine.scene },
                  ρ'.world⟩)) := by
  intro σ
  obtain ⟨hsame, hpath⟩ := reached_idle hops
  refine ⟨hsame, fun fuel delta absolute => ?_, fun clock config fuel max frames ρ' => ?_⟩
  · intro update
    refine ⟨Turn.erases_update b fuel delta absolute σ, fun σ' hu hidle => ?_⟩
    have hstill := (Scene.still_of_updateRecorded hpath hu).2 hidle
    refine ⟨hstill.slots, hstill.topics, fun beats hbeats => ?_⟩
    obtain ⟨hentities, hevents⟩ := σ'.scene.foldl_idleFrame (beats.map Beat.absolute)
    exact ⟨Beat.erases_updates b beats σ', hentities, hevents,
      Beat.outcome_updates_still hstill hbeats⟩
  · intro ρ hrun
    have hreached : ρ.engine.scene.Reached := ⟨_, hpath⟩
    have hrests := Engine.rests_of_runUntilIdle hrun
    refine ⟨hrests, fun hpos hidle => ?_⟩
    obtain ⟨events, hran⟩ := hrests.ran
    obtain ⟨n, rfl⟩ := Nat.exists_eq_succ_of_ne_zero (Nat.ne_of_gt hpos)
    have hticked := Engine.ticked_of_frames hreached hran
    have hstill := hticked.still hidle
    exact ⟨hstill.slots, hstill.topics, fun more n hmore =>
      Engine.outcome_runFrames_still n hstill hticked.live hticked.drained hmore⟩

/-- A probe that adds another one in its only frame, stops it and finishes, and sends a message when it
goes. -/
def parting : Behaviour Probe Unit := fun callback self probe =>
  match callback with
  | .update .. => .ask (.addComponent self.entity {}) fun _ => .ask (.stop ⟨2⟩ .detached) fun _ =>
      .ask .finish fun _ => .done (.ok (), probe)
  | .remove => .ask (.send "bye" .null) fun _ => .done (.ok (), probe)
  | _ => .done (.ok (), probe)

def stopover : List (HostOp Probe Unit) := [.call (.addEntity "inn"), .call (.addComponent ⟨1⟩ {})]

def parted : Setting Probe (Unit × Journal Probe) :=
  ((Scene.updateRecorded parting 1 0 0).outcome (recording parting () stopover).2).2

def inn : Engine.Run Probe Unit :=
  ⟨{ (Engine.new {} : Engine Probe) with scene := (recording parting () stopover).2.scene }, ()⟩

def vacated : Engine.Run Probe Unit := (Engine.outcome (Engine.runUntilIdle parting 2 9) inn).2

/-- After the frame the message and the id of the other probe are left, and two more updates drop them. An
engine stops after it, and the frames that it has left out come to nothing. -/
theorem idle_history_parting :
    parted.scene.attachQueue = [⟨2⟩] ∧ parted.scene.bus.pending = 1 ∧ parted.scene.slots = [] ∧
    (∃ s marks, Journal.Unheard marks ∧ s.attachQueue = [] ∧ s.bus.pending = 0 ∧
      ([⟨2, 0, 0⟩, ⟨2, 0, 0⟩].forM (Beat.updateRecorded parting)).outcome parted =
        (.ok (), ⟨s, parted.world.1, parted.world.2 ++ marks⟩)) ∧
    Engine.Rests parting 2 9 inn vacated 1 ∧
    ∃ ρ, Engine.outcome (Engine.runFrames parting 2 8) vacated = (.ok [], ρ) := by
  obtain ⟨-, hupdates, hengine⟩ := idle_history parting () stopover (by decide +kernel)
  have hfirst : ((Scene.updateRecorded parting 1 0 0).outcome (recording parting () stopover).2).1 =
      .ok () := by decide +kernel
  have hframe : (Scene.updateRecorded parting 1 0 0).outcome (recording parting () stopover).2 =
      (.ok (), parted) := by rw [parted, ← hfirst]
  have hone : (Engine.outcome (Engine.runUntilIdle parting 2 9) inn).1 = .ok 1 := by decide +kernel
  have hrun : Engine.outcome (Engine.runUntilIdle parting 2 9) inn = (.ok 1, vacated) := by
    rw [vacated, ← hone]
  have hpending : parted.scene.bus.pending = 1 := by decide +kernel
  obtain ⟨hslots, -, hlater⟩ := (hupdates 1 0 0).2 parted hframe (by decide +kernel)
  obtain ⟨-, -, -, marks, hmarks, heq⟩ := hlater [⟨2, 0, 0⟩, ⟨2, 0, 0⟩] (by simp [hpending])
  obtain ⟨hrests, hmore⟩ := hengine inn.engine.clock inn.engine.config 2 9 1 vacated hrun
  obtain ⟨-, -, hframes⟩ := hmore Nat.one_pos (by decide +kernel)
  obtain ⟨clock, times, -, hcome⟩ := hframes 2 8 (by decide +kernel)
  have hdropped : ∃ s marks, Journal.Unheard marks ∧ s.attachQueue = [] ∧ s.bus.pending = 0 ∧
      ([⟨2, 0, 0⟩, ⟨2, 0, 0⟩].forM (Beat.updateRecorded parting)).outcome parted =
        (.ok (), ⟨s, parted.world.1, parted.world.2 ++ marks⟩) :=
    ⟨(parted.scene.idleFrame 0).idleFrame 0, marks, hmarks, rfl, rfl, heq⟩
  exact ⟨by decide +kernel, hpending, hslots, hdropped, hrests, _, hcome⟩

end FrameChain
