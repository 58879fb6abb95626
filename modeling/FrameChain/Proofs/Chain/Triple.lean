import FrameChain.Proofs.Structured.Layout

set_option autoImplicit false

/-! `Triple self P t Q E` says what a run leads to from every chain in `P`, whatever the scene and the
host answer on the way: to `Q` with its value or to `E` with its failure. A crash leaves no chain to
speak of. -/
namespace FrameChain

variable {κ ω α τ υ : Type} [Named κ]

/-- In some setting the script ends with this value. -/
def Script.Answers (self : Caller) (p : Script κ ω τ) (a : τ) : Prop :=
  ∃ σ σ', p.run self σ = (.ok a, σ')

theorem Script.exists_of_bind {self : Caller} {p : Script κ ω τ} {next : τ → Script κ ω υ}
    {σ σ' : Setting κ ω} {a : υ} (hr : (p.bind next).run self σ = (.ok a, σ')) :
    ∃ b σ₁, p.run self σ = (.ok b, σ₁) ∧ (next b).run self σ₁ = (.ok a, σ') := by
  rw [Script.run_bind] at hr
  cases hp : p.run self σ with
  | mk outcome σ₁ =>
    rw [hp] at hr
    cases outcome with
    | error crash => cases hr
    | ok b => exact ⟨b, σ₁, rfl, hr⟩

theorem Script.Answers.exists_of_bind {self : Caller} {p : Script κ ω τ} {next : τ → Script κ ω υ}
    {a : υ} (h : (p.bind next).Answers self a) :
    ∃ b, p.Answers self b ∧ (next b).Answers self a := by
  obtain ⟨σ, σ', hr⟩ := h
  obtain ⟨b, σ₁, hp, hnext⟩ := Script.exists_of_bind hr
  exact ⟨b, ⟨σ, σ₁, hp⟩, σ₁, σ', hnext⟩

theorem Script.Answers.eq_of_done {self : Caller} {a b : τ}
    (h : (Script.done a : Script κ ω τ).Answers self b) : b = a := by
  obtain ⟨σ, σ', hr⟩ := h
  cases hr
  rfl

namespace ChainRun

def Ends (Q : τ → Chain κ ω α → Prop) (E : Failure → Chain κ ω α → Prop) :
    Except Failure τ → Chain κ ω α → Prop
  | .ok a, c => Q a c
  | .error f, c => E f c

def Triple (self : Caller) (P : Chain κ ω α → Prop) (t : ChainRun κ ω α τ)
    (Q : τ → Chain κ ω α → Prop) (E : Failure → Chain κ ω α → Prop) : Prop :=
  ∀ c answer c', P c → (t.run c).Answers self (answer, c') → Ends Q E answer c'

section Rules

variable {self : Caller} {P P' : Chain κ ω α → Prop} {Q Q' : τ → Chain κ ω α → Prop}
  {E E' : Failure → Chain κ ω α → Prop} {R : υ → Chain κ ω α → Prop}

theorem Triple.imp {t : ChainRun κ ω α τ} (h : Triple self P' t Q' E') (hp : ∀ c, P c → P' c)
    (hq : ∀ a c, Q' a c → Q a c) (he : ∀ f c, E' f c → E f c) : Triple self P t Q E := by
  intro c answer c' hc hr
  have hends := h c answer c' (hp c hc) hr
  cases answer with
  | ok a => exact hq a c' hends
  | error f => exact he f c' hends

theorem Triple.weaken {t : ChainRun κ ω α τ} (h : Triple self P' t Q E) (hp : ∀ c, P c → P' c) :
    Triple self P t Q E :=
  h.imp hp (fun _ _ h => h) fun _ _ h => h

theorem Triple.post {t : ChainRun κ ω α τ} (h : Triple self P t Q' E) (hq : ∀ a c, Q' a c → Q a c) :
    Triple self P t Q E :=
  h.imp (fun _ h => h) hq fun _ _ h => h

theorem triple_pure {a : τ} (h : ∀ c, P c → Q a c) : Triple self P (pure a) Q E := by
  rintro c _ _ hc ⟨σ, σ', hr⟩
  cases hr
  exact h c hc

theorem triple_throw {f : Failure} (h : ∀ c, P c → E f c) :
    Triple self P (throw f : ChainRun κ ω α τ) Q E := by
  rintro c _ _ hc ⟨σ, σ', hr⟩
  cases hr
  exact h c hc

theorem triple_bind {t : ChainRun κ ω α τ} {f : τ → ChainRun κ ω α υ} (ht : Triple self P t Q E)
    (hf : ∀ a, Triple self (Q a) (f a) R E) : Triple self P (t >>= f) R E := by
  rintro c answer c' hc ⟨σ, σ', hr⟩
  rw [run_bind] at hr
  obtain ⟨⟨first, c₁⟩, σ₁, hrun, hr⟩ := Script.exists_of_bind hr
  have hends := ht c first c₁ hc ⟨σ, σ₁, hrun⟩
  cases first with
  | ok a => exact hf a c₁ answer c' hends ⟨σ₁, σ', hr⟩
  | error g =>
    cases hr
    exact hends

theorem triple_modify {f : Chain κ ω α → Chain κ ω α} {Q : Unit → Chain κ ω α → Prop}
    (h : ∀ c, P c → Q () (f c)) : Triple self P (modify f) Q E := by
  rintro c _ _ hc ⟨σ, σ', hr⟩
  cases hr
  exact h c hc

theorem triple_chain {f : Chain κ ω α → ChainRun κ ω α υ}
    (h : ∀ base, P base → Triple self (· = base) (f base) R E) :
    Triple self P (chain >>= f) R E := by
  rintro c answer c' hc ⟨σ, σ', hr⟩
  exact h c hc c answer c' rfl ⟨σ, σ', hr⟩

theorem triple_set {c' : Chain κ ω α} {Q : PUnit → Chain κ ω α → Prop} (h : ∀ c, P c → Q ⟨⟩ c') :
    Triple self P (set c') Q E := by
  rintro c _ _ hc ⟨σ, σ', hr⟩
  cases hr
  exact h c hc

theorem triple_script {p : Script κ ω τ} (h : ∀ a c, P c → Q a c) :
    Triple self P (script p) Q E := by
  rintro c answer c' hc ⟨σ, σ', hr⟩
  rw [run_script] at hr
  obtain ⟨a, σ₁, -, hr⟩ := Script.exists_of_bind hr
  cases hr
  exact h a c hc

theorem triple_demand {p : Script κ ω (Except Failure τ)} (h : ∀ a c, P c → Q a c)
    (he : ∀ f c, P c → p.Answers self (.error f) → E f c) : Triple self P (demand p) Q E := by
  rintro c answer c' hc ⟨σ, σ', hr⟩
  rw [run_demand] at hr
  obtain ⟨first, σ₁, hrun, hr⟩ := Script.exists_of_bind hr
  cases hr
  cases answer with
  | ok a => exact h a c hc
  | error f => exact he f c hc ⟨σ, σ', hrun⟩

theorem triple_crash {crash : Crash} : Triple self P (script (.crash crash) : ChainRun κ ω α τ) Q E := by
  rintro c _ _ _ ⟨σ, σ', hr⟩
  cases hr

theorem triple_ite {p : Prop} [Decidable p] {t u : ChainRun κ ω α τ} (ht : p → Triple self P t Q E)
    (hu : ¬ p → Triple self P u Q E) : Triple self P (if p then t else u) Q E := by
  split
  · exact ht ‹_›
  · exact hu ‹_›

end Rules

end ChainRun
end FrameChain
