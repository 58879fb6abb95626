import FrameChain.Proofs.Moment.Trail

set_option autoImplicit false

namespace FrameChain

variable {κ ω τ : Type} [Named κ]

namespace Turn

open Scene

variable (b : Behaviour κ ω) (m₀ : Moment κ)

/-- Without a failure so far, this phase is reached with the scene and the journal as they are. -/
def At (p : Phase κ) (calling : Option Caller) (σ : Setting κ (ω × Journal κ)) : Prop :=
  Stretch m₀ ⟨p, calling, σ.scene, σ.world.2⟩

def Crashed (σ : Setting κ (ω × Journal κ)) : Prop :=
  ∃ p calling, At m₀ p calling σ ∧ (calling = none → p.callee = none)

/-- How a turn may end early, where a failure in phase `p` is still to be recovered from. -/
def Broken (p : Phase κ) (halt : Halt) (σ : Setting κ (ω × Journal κ)) : Prop :=
  match halt with
  | .failure f =>
      b.Raises f ∧ Path m₀ ⟨.idle, none, p.recover σ.scene, σ.world.2 ++ p.losses⟩ ∧
        ∀ callback id, p.callee = some (callback, id) → ∃ t, σ.scene.slot? id = some t
  | .crash _ => Crashed m₀ σ

def Ended (halt : Halt) (σ : Setting κ (ω × Journal κ)) : Prop := Broken b m₀ .idle halt σ

variable {b m₀}

theorem triple_update (hm : m₀.Sound) (fuel : Nat) (delta absolute : Seconds) :
    Triple (At m₀ .idle none) (updateRecorded b fuel delta absolute)
      (fun _ σ => At m₀ .idle none σ ∧ σ.scene.removalQueue = [] ∧ σ.scene.stopping = [])
      (Ended b m₀) := by
  intro σ h
  have hstart : Stretch m₀ (Station.moment ⟨.idle, σ⟩) := h
  refine (triple_updateRecorded (b := b) (hm.along hstart.path) fuel delta absolute σ .refl).imp ?_ ?_
  · intro _ σ' ⟨hend, hqueue, hstopping⟩
    exact ⟨hstart.trans (hend.settled hqueue hstopping).stretch, hqueue, hstopping⟩
  · intro halt σ' hend
    cases halt with
    | failure f =>
      obtain ⟨g, hg, hfalls⟩ := hend
      refine ⟨hfalls.raises, ?_, nofun⟩
      rw [show (Phase.idle : Phase κ).losses = [] from rfl, List.append_nil]
      exact (Stretch.path (hstart.trans (stretch_of_strides hg))).trans hfalls.path
    | crash c =>
      obtain ⟨g, hg, hcut⟩ := hend
      obtain ⟨calling, hstretch, hcalling⟩ := hcut.stretch
      exact ⟨g.phase, calling, (hstart.trans (stretch_of_strides hg)).trans hstretch, hcalling⟩

variable (m₀) in
/-- A history has come to this moment, whatever failed on the way. -/
def Reached (p : Phase κ) (calling : Option Caller) (σ : Setting κ (ω × Journal κ)) : Prop :=
  Path m₀ ⟨p, calling, σ.scene, σ.world.2⟩

end Turn

inductive Leg (b : Behaviour κ ω) (ops : List (HostOp κ ω)) : Station κ ω → Station κ ω → Prop
  | stride {g g' : Station κ ω} (h : Stride b g g') : Leg b ops g g'
  | fall {g g' : Station κ ω} {f : Failure} (h : Falls b f g g') : Leg b ops g g'
  | hosted {σ : Setting κ (ω × Journal κ)} (c : HostCall κ) (h : .call c ∈ ops) :
      Leg b ops ⟨.idle, σ⟩
        ⟨.idle, (c.apply σ.scene).2, σ.world.1, σ.world.2 ++ [.hosted σ.scene c]⟩
  | edited {σ : Setting κ (ω × Journal κ)} (f : ω → ω) (h : .edit f ∈ ops) :
      Leg b ops ⟨.idle, σ⟩ ⟨.idle, σ.scene, f σ.world.1, σ.world.2⟩

/-- The stations on the way to the last one, oldest first. -/
inductive Trail (b : Behaviour κ ω) (ops : List (HostOp κ ω)) (first : Station κ ω) :
    List (Station κ ω) → Station κ ω → Prop
  | start : Trail b ops first [] first
  | step {past : List (Station κ ω)} {g g' : Station κ ω} (h : Trail b ops first past g)
      (hs : Leg b ops g g') : Trail b ops first (past ++ [g]) g'

section Trails

variable {b : Behaviour κ ω} {ops : List (HostOp κ ω)} {first g g' : Station κ ω}
  {past : List (Station κ ω)}

theorem Leg.path (h : Leg b ops g g') : Path g.moment g'.moment := by
  cases h with
  | stride h => exact h.stretch.path
  | fall h => exact h.path
  | hosted c => exact .single (.onward (.hosted c))
  | edited => exact .refl

theorem Trail.path (h : Trail b ops first past g) : Path first.moment g.moment := by
  induction h with
  | start => exact .refl
  | step _ hs ih => exact ih.trans hs.path

theorem Trail.reached (h : Trail b ops first past g) :
    ∀ g' ∈ past ++ [g], ∃ past', Trail b ops first past' g' := by
  induction h with
  | start =>
    intro g' hmem
    rw [List.mem_singleton.mp hmem]
    exact ⟨[], .start⟩
  | step h hs ih =>
    intro g' hmem
    rcases List.mem_append.mp hmem with hmem | hmem
    · exact ih g' hmem
    · rw [List.mem_singleton.mp hmem]
      exact ⟨_, h.step hs⟩

theorem Trail.paths (h : Trail b ops first past g) :
    (past ++ [g]).Pairwise fun g g' => Path g.moment g'.moment := by
  induction h with
  | start => exact List.pairwise_singleton _ _
  | @step past g g' h hs ih =>
    refine List.pairwise_append.mpr ⟨ih, List.pairwise_singleton _ _, fun early hearly late hlate => ?_⟩
    rw [List.mem_singleton.mp hlate]
    rcases List.mem_append.mp hearly with hpast | hlast
    · exact ((List.pairwise_append.mp ih).2.2 early hpast g (List.mem_singleton_self g)).trans hs.path
    · rw [List.mem_singleton.mp hlast]
      exact hs.path

theorem Trail.strides (h : Trail b ops first past g) (hs : Relation.ReflTransGen (Stride b) g g') :
    ∃ past', Trail b ops first past' g' := by
  induction hs with
  | refl => exact ⟨past, h⟩
  | tail _ hs ih =>
    obtain ⟨past', h'⟩ := ih
    exact ⟨_, h'.step (.stride hs)⟩

end Trails

namespace Turn

variable (b : Behaviour κ ω) (ops : List (HostOp κ ω)) (first : Station κ ω)

def Between (σ : Setting κ (ω × Journal κ)) : Prop := ∃ past, Trail b ops first past ⟨.idle, σ⟩

def Cut (σ : Setting κ (ω × Journal κ)) : Prop := ∃ past g, Trail b ops first past g ∧ g.CutOff b σ

variable {b ops first}

theorem triple_performRecorded (hfirst : first.moment.Sound) {op : HostOp κ ω} (hop : op ∈ ops) :
    Triple (Between b ops first) (op.performRecorded b) (fun _ => Between b ops first)
      fun halt σ =>
        match halt with
        | .failure _ => Between b ops first σ
        | .crash _ => Cut b ops first σ := by
  cases op with
  | call c =>
    intro σ ⟨past, h⟩
    have hstep := h.step (.hosted c hop)
    change Ends _ _ (outcome (perform fun s => c.apply s)
      (⟨σ.scene, σ.world.1, σ.world.2 ++ [.hosted σ.scene c]⟩ : Setting κ (ω × Journal κ)))
    simp only [outcome_perform]
    cases ho : c.apply σ.scene with
    | mk answer s =>
      rw [ho] at hstep
      cases answer with
      | ok u => exact ⟨_, hstep⟩
      | error f => exact ⟨_, hstep⟩
  | edit f => exact fun σ ⟨past, h⟩ => ⟨_, h.step (.edited f hop)⟩
  | update fuel delta absolute =>
    intro σ ⟨past, h⟩
    have hsound := hfirst.along h.path
    refine (triple_updateRecorded (b := b) hsound fuel delta absolute σ .refl).imp ?_ ?_
    · intro _ σ' ⟨hend, hqueue, hstopping⟩
      exact h.strides (hend.settled hqueue hstopping)
    · intro halt σ' hend
      obtain ⟨g, hg, hend⟩ : ∃ g, Relation.ReflTransGen (Stride b) ⟨.idle, σ⟩ g ∧
          match halt with
          | .failure f => Falls b f g ⟨.idle, σ'⟩
          | .crash _ => g.CutOff b σ' := by cases halt <;> exact hend
      obtain ⟨past', h'⟩ := h.strides hg
      cases halt with
      | failure f => exact ⟨_, h'.step (.fall hend)⟩
      | crash c => exact ⟨past', g, h', hend⟩

theorem triple_historyRecorded (hfirst : first.moment.Sound) {rest : List (HostOp κ ω)}
    (hrest : ∀ op ∈ rest, op ∈ ops) :
    Triple (Between b ops first) (historyRecorded b rest) (fun _ => Between b ops first)
      fun halt σ => (∃ crash, halt = .crash crash) ∧ Cut b ops first σ := by
  induction rest with
  | nil => exact triple_pure fun _ h => h
  | cons op rest ih =>
    obtain ⟨hop, hrest⟩ := List.forall_mem_cons.mp hrest
    refine triple_bind (Q := fun _ => Between b ops first) (triple_attempt ?_) fun _ => ih hrest
    refine (triple_performRecorded hfirst hop).imp (fun _ h => h) (fun _ _ h => h) ?_
    intro halt σ h
    cases halt with
    | failure f => exact h
    | crash c => exact ⟨⟨c, rfl⟩, h⟩

end Turn

/-- The scene and the journal that a history leaves behind, and how it ends. -/
def recording (b : Behaviour κ ω) (w : ω) (ops : List (HostOp κ ω)) :
    Except Halt Unit × Setting κ (ω × Journal κ) :=
  (historyRecorded b ops).outcome ⟨{}, w, []⟩

def ending (b : Behaviour κ ω) (w : ω) (ops : List (HostOp κ ω)) : Except Halt Unit × Setting κ ω :=
  (history b ops).outcome ⟨{}, w⟩

theorem erase_recording (b : Behaviour κ ω) (w : ω) (ops : List (HostOp κ ω)) :
    ((recording b w ops).1, (recording b w ops).2.erase) = ending b w ops :=
  Turn.erases_history b ops ⟨{}, w, []⟩

/-- These stations lie behind the history, the last one being where it ended or was cut off. -/
structure Trodden (b : Behaviour κ ω) (w : ω) (ops : List (HostOp κ ω)) (past : List (Station κ ω))
    (last : Station κ ω) : Prop where
  trail : Trail b ops ⟨.idle, {}, w, []⟩ past last
  ended : (ending b w ops).1 = .ok () → last = ⟨.idle, (recording b w ops).2⟩
  cut : (ending b w ops).1 ≠ .ok () → last.CutOff b (recording b w ops).2

theorem exists_trodden (b : Behaviour κ ω) (w : ω) (ops : List (HostOp κ ω)) :
    ∃ past last, Trodden b w ops past last := by
  have herase := congrArg Prod.fst (erase_recording b w ops)
  have htriple : Turn.Triple (Turn.Between b ops ⟨.idle, {}, w, []⟩) (historyRecorded b ops) _ _ :=
    Turn.triple_historyRecorded Moment.Sound.empty fun _ hop => hop
  have h := htriple ⟨{}, w, []⟩ ⟨[], .start⟩
  unfold recording at herase
  cases hr : (historyRecorded b ops).outcome ⟨{}, w, []⟩ with
  | mk answer σ =>
    rw [hr] at h herase
    have hsetting : (recording b w ops).2 = σ := congrArg Prod.snd hr
    cases answer with
    | ok u =>
      obtain ⟨past, h⟩ := h
      exact ⟨past, _, h, fun _ => by rw [hsetting], fun hne => absurd herase.symm hne⟩
    | error halt =>
      obtain ⟨_, past, g, h, hcut⟩ := h
      exact ⟨past, g, h, fun hok => (nomatch herase.trans hok), fun _ => hsetting ▸ hcut⟩

/-- Every end of a history, a crash included, is a moment on a path from the empty scene. -/
theorem path_recording (b : Behaviour κ ω) (w : ω) (ops : List (HostOp κ ω)) :
    ∃ p calling, Turn.Reached ⟨.idle, none, {}, []⟩ p calling (recording b w ops).2 ∧
      (calling = none → p.callee = none) ∧
      ((recording b w ops).1 = .ok () → p = .idle ∧ calling = none) := by
  have herase := congrArg Prod.fst (erase_recording b w ops)
  obtain ⟨past, last, h⟩ := exists_trodden b w ops
  by_cases hok : (ending b w ops).1 = .ok ()
  · have hpath := h.trail.path
    rw [h.ended hok] at hpath
    exact ⟨.idle, none, hpath, fun _ => rfl, fun _ => ⟨rfl, rfl⟩⟩
  · obtain ⟨calling, hstretch, hcalling⟩ := (h.cut hok).stretch
    exact ⟨last.phase, calling, h.trail.path.trans hstretch.path, hcalling,
      fun hr => absurd (herase.symm.trans hr) hok⟩

/-- A history that ends well has come to a moment between two operations. -/
theorem reached_idle {b : Behaviour κ ω} {w : ω} {ops : List (HostOp κ ω)}
    (h : (ending b w ops).1 = .ok ()) :
    (recording b w ops).2.erase = (ending b w ops).2 ∧
      Turn.Reached ⟨.idle, none, {}, []⟩ .idle none (recording b w ops).2 := by
  have herase := erase_recording b w ops
  obtain ⟨p, calling, hp, _, hidle⟩ := path_recording b w ops
  obtain ⟨rfl, rfl⟩ := hidle ((congrArg Prod.fst herase).trans h)
  exact ⟨congrArg Prod.snd herase, hp⟩

end FrameChain
