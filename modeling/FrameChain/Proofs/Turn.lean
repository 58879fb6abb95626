import FrameChain.Scene.Update

set_option autoImplicit false

namespace FrameChain.Turn

variable {κ ω τ υ : Type}

def outcome (t : Turn κ ω τ) (σ : Setting κ ω) : Except Halt τ × Setting κ ω :=
  StateT.run (ExceptT.run t) σ

@[simp] theorem outcome_pure (a : τ) (σ : Setting κ ω) :
    outcome (pure a : Turn κ ω τ) σ = (.ok a, σ) := rfl

theorem outcome_bind (t : Turn κ ω τ) (f : τ → Turn κ ω υ) (σ : Setting κ ω) :
    outcome (t >>= f) σ =
      match outcome t σ with
      | (.ok a, σ) => outcome (f a) σ
      | (.error h, σ) => (.error h, σ) := by
  change (StateT.run (ExceptT.run t >>= ExceptT.bindCont f) σ) = _
  rw [StateT.run_bind]
  unfold outcome
  cases StateT.run (ExceptT.run t) σ with
  | mk answer σ' => cases answer <;> rfl

@[simp] theorem outcome_scene (σ : Setting κ ω) :
    outcome (scene : Turn κ ω (Scene κ)) σ = (.ok σ.scene, σ) := rfl

@[simp] theorem outcome_modifyScene (f : Scene κ → Scene κ) (σ : Setting κ ω) :
    outcome (modifyScene f) σ = (.ok (), { σ with scene := f σ.scene }) := rfl

@[simp] theorem outcome_fail (f : Failure) (σ : Setting κ ω) :
    outcome (fail f : Turn κ ω τ) σ = (.error (.failure f), σ) := rfl

theorem outcome_attempt (t : Turn κ ω τ) (σ : Setting κ ω) :
    outcome (attempt t) σ =
      match outcome t σ with
      | (.ok a, σ) => (.ok (.ok a), σ)
      | (.error (.failure f), σ) => (.ok (.error f), σ)
      | (.error (.crash c), σ) => (.error (.crash c), σ) := by
  change StateT.run (ExceptT.run t >>= _) σ = _
  rw [StateT.run_bind]
  unfold outcome
  cases StateT.run (ExceptT.run t) σ with
  | mk answer σ' =>
    cases answer with
    | ok a => rfl
    | error h => cases h <;> rfl

theorem outcome_perform (f : Scene κ → Except Failure τ × Scene κ) (σ : Setting κ ω) :
    outcome (perform f) σ =
      match f σ.scene with
      | (.ok a, s) => (.ok a, { σ with scene := s })
      | (.error e, s) => (.error (.failure e), { σ with scene := s }) := by
  unfold perform
  simp only [outcome_bind, outcome_scene]
  cases f σ.scene with
  | mk answer s => cases answer <;> rfl

theorem outcome_script [Named κ] (self : Caller) (p : Script κ ω τ) (σ : Setting κ ω) :
    outcome (script self p) σ =
      match p.run self σ with
      | (.ok a, σ) => (.ok a, σ)
      | (.error c, σ) => (.error (.crash c), σ) := by
  change (match p.run self σ with
    | (.ok a, σ) => (Except.ok a, σ)
    | (.error c, σ) => (.error (Halt.crash c), σ)) = _
  cases p.run self σ with
  | mk answer σ' => cases answer <;> rfl

def Ends (Q : τ → Setting κ ω → Prop) (E : Halt → Setting κ ω → Prop) :
    Except Halt τ × Setting κ ω → Prop
  | (.ok a, σ) => Q a σ
  | (.error h, σ) => E h σ

def Triple (P : Setting κ ω → Prop) (t : Turn κ ω τ) (Q : τ → Setting κ ω → Prop)
    (E : Halt → Setting κ ω → Prop) : Prop :=
  ∀ σ, P σ → Ends Q E (outcome t σ)

section Rules

variable {P P' : Setting κ ω → Prop} {Q Q' : τ → Setting κ ω → Prop}
  {E E' : Halt → Setting κ ω → Prop} {R : υ → Setting κ ω → Prop}

theorem Ends.imp {o : Except Halt τ × Setting κ ω} (h : Ends Q E o)
    (hq : ∀ a σ, Q a σ → Q' a σ) (he : ∀ h σ, E h σ → E' h σ) : Ends Q' E' o := by
  obtain ⟨answer, σ⟩ := o
  cases answer with
  | ok a => exact hq a σ h
  | error e => exact he e σ h

theorem Triple.imp {t : Turn κ ω τ} (h : Triple P' t Q' E') (hp : ∀ σ, P σ → P' σ)
    (hq : ∀ a σ, Q' a σ → Q a σ) (he : ∀ h σ, E' h σ → E h σ) : Triple P t Q E :=
  fun σ hσ => (h σ (hp σ hσ)).imp hq he

theorem Triple.weaken {t : Turn κ ω τ} (h : Triple P' t Q E) (hp : ∀ σ, P σ → P' σ) :
    Triple P t Q E :=
  h.imp hp (fun _ _ h => h) fun _ _ h => h

theorem triple_trivial (t : Turn κ ω τ) : Triple P t (fun _ _ => True) fun _ _ => True := by
  intro σ _
  cases outcome t σ with
  | mk answer σ' => cases answer <;> exact True.intro

theorem triple_pure {a : τ} (h : ∀ σ, P σ → Q a σ) : Triple P (pure a) Q E :=
  fun σ hσ => h σ hσ

theorem triple_crash {c : Crash} (h : ∀ σ, P σ → E (.crash c) σ) :
    Triple P (crash c : Turn κ ω τ) Q E :=
  fun σ hσ => h σ hσ

theorem triple_bind {t : Turn κ ω τ} {f : τ → Turn κ ω υ} (ht : Triple P t Q E)
    (hf : ∀ a, Triple (Q a) (f a) R E) : Triple P (t >>= f) R E := by
  intro σ hσ
  have h := ht σ hσ
  rw [outcome_bind]
  cases ho : outcome t σ with
  | mk answer σ' =>
    rw [ho] at h
    cases answer with
    | ok a => exact hf a σ' h
    | error e => exact h

theorem triple_scene {f : Scene κ → Turn κ ω υ}
    (h : ∀ s, Triple (fun σ => P σ ∧ σ.scene = s) (f s) R E) : Triple P (scene >>= f) R E := by
  intro σ hσ
  rw [outcome_bind, outcome_scene]
  exact h σ.scene σ ⟨hσ, rfl⟩

/-- After an attempt a failure is a value; only a crash still ends the turn. -/
theorem triple_attempt {t : Turn κ ω τ} {Q : Except Failure τ → Setting κ ω → Prop}
    (h : Triple P t (fun a => Q (.ok a)) fun halt σ =>
      match halt with
      | .failure f => Q (.error f) σ
      | .crash c => E (.crash c) σ) : Triple P (attempt t) Q E := by
  intro σ hσ
  have hr := h σ hσ
  rw [outcome_attempt]
  cases ho : outcome t σ with
  | mk answer σ' =>
    rw [ho] at hr
    cases answer with
    | ok a => exact hr
    | error halt => cases halt <;> exact hr

theorem triple_ite {c : Prop} [Decidable c] {t u : Turn κ ω τ} (ht : c → Triple P t Q E)
    (hu : ¬ c → Triple P u Q E) : Triple P (if c then t else u) Q E := by
  split
  · exact ht ‹_›
  · exact hu ‹_›

end Rules
end FrameChain.Turn
