import FrameChain.Proofs.Chain.Moments
import FrameChain.Proofs.Chain.Visits

set_option autoImplicit false

namespace FrameChain

open Chain ChainRun

variable {κ ω α τ : Type}

/-- The component of the chain was not stopped, and none of its interrupts holds. -/
structure Chain.Undisturbed (c : Chain κ ω α) (caller : Caller) (σ : Setting κ ω) : Prop where
  running : σ.scene.isDone caller.component = false
  quiet : (firstHolds c.interrupts σ.world).1 = .ok false

namespace ChainRun

variable [Named κ] {act : α → Caller → Script κ ω (Except Failure Unit)} {self : Caller}
  {c d : Chain κ ω α} {σ σ' : Setting κ ω} {absolute : Seconds}

/-- The setting in which a command runs behind the interrupts. -/
def checked (c : Chain κ ω α) (σ : Setting κ ω) : Setting κ ω :=
  ⟨σ.scene, (firstHolds c.interrupts σ.world).2⟩

theorem outcome_of_play (t : ChainRun κ ω α τ) (self : Caller) (c : Chain κ ω α) (σ : Setting κ ω) :
    (t.run c).run self σ =
      ((t.play self c ⟨σ.scene, σ.world, []⟩).1, (t.play self c ⟨σ.scene, σ.world, []⟩).2.erase) :=
  (Script.run_recorded self (t.run c) ⟨σ.scene, σ.world, []⟩).symm

theorem outcome_round {id : NodeId} (h : c.Undisturbed self σ) (hcur : c.current = some id) :
    ((round act self absolute).run c).run self σ =
      ((turn act self absolute id).run c).run self (checked c σ) := by
  rw [outcome_of_play, outcome_of_play (turn act self absolute id), play_round absolute h.running,
    checked]
  cases hi : firstHolds c.interrupts σ.world with
  | mk answer w =>
    obtain rfl : answer = .ok false := by
      have := h.quiet
      rwa [hi] at this
    simp only [hcur]

inductive Passed (act : α → Caller → Script κ ω (Except Failure Unit)) (self : Caller)
    (absolute : Seconds) (c : Chain κ ω α) (σ : Setting κ ω) :
    Except Failure Bool → Chain κ ω α → Setting κ ω → Prop
  | stopped (h : σ.scene.isDone self.component = true) : Passed act self absolute c σ (.ok false) c σ
  | ended {σ' : Setting κ ω} :
      Passed act self absolute c σ (.ok false) { c.released with finished := true } σ'
  | unclosed {f : Failure} {σ' : Setting κ ω} (hcur : c.current = none) :
      Passed act self absolute c σ (.error f) c σ'
  | turned {id : NodeId} {here : Node κ ω α} {answer : Except Failure Bool} {d : Chain κ ω α}
      {σ' : Setting κ ω} (hu : c.Undisturbed self σ) (hcur : c.current = some id)
      (hn : c.nodes[id]? = some here)
      (hr : ((turn act self absolute id).run c).run self (checked c σ) = (.ok (answer, d), σ')) :
      Passed act self absolute c σ answer d σ'

theorem passed_round {answer : Except Failure Bool}
    (hr : ((round act self absolute).run c).run self σ = (.ok (answer, d), σ')) :
    Passed act self absolute c σ answer d σ' := by
  have hcomplete (σ₁ : Setting κ ω) (hr : ((do
      complete
      return false : ChainRun κ ω α Bool).run c).run self σ₁ = (.ok (answer, d), σ')) :
      Passed act self absolute c σ answer d σ' := by
    have hend : Triple self (· = c) (do
        complete
        return false) (fun goesOn d => goesOn = false ∧ d = { c.released with finished := true })
        fun _ _ => False := by
      refine triple_bind triple_complete fun _ => triple_pure ?_
      rintro _ ⟨_, rfl, rfl⟩
      exact ⟨rfl, rfl⟩
    have hends := hend c answer d rfl ⟨_, σ', hr⟩
    cases answer with
    | error f => exact hends.elim
    | ok goesOn =>
      obtain ⟨rfl, rfl⟩ := hends
      exact .ended
  cases hs : σ.scene.isDone self.component with
  | true =>
    rw [outcome_of_play, play_round_done hs] at hr
    cases hr
    exact .stopped hs
  | false =>
    have hplay := hr
    rw [outcome_of_play, play_round absolute hs] at hplay
    cases hi : firstHolds c.interrupts σ.world with
    | mk holds w =>
      simp only [hi] at hplay
      cases holds with
      | error crash => cases hplay
      | ok holds =>
        cases holds with
        | true => exact hcomplete ⟨σ.scene, w⟩ ((outcome_of_play _ self c _).trans hplay)
        | false =>
          have hu : c.Undisturbed self σ := ⟨hs, by rw [hi]⟩
          cases hcur : c.current with
          | none =>
            simp only [hcur] at hplay
            cases hopen : c.scopes.isEmpty with
            | true =>
              rw [hopen] at hplay
              exact hcomplete ⟨σ.scene, w⟩ ((outcome_of_play _ self c _).trans hplay)
            | false =>
              rw [hopen] at hplay
              cases hplay
              exact .unclosed hcur
          | some id =>
            rw [outcome_round hu hcur] at hr
            cases hn : c.nodes[id]? with
            | some here => exact .turned hu hcur hn hr
            | none =>
              have hnone : Triple self (· = c) (turn act self absolute id) (fun _ _ => False)
                  fun _ _ => False := triple_turn_of fun here hn' => nomatch hn.symm.trans hn'
              have hends := hnone c answer d rfl ⟨_, σ', hr⟩
              cases answer <;> exact hends.elim

theorem pace_of_round {e : Chain κ ω α} {σ₁ : Setting κ ω} (n : Nat)
    (hround : ((round act self absolute).run c).run self σ = (.ok (.ok true, e), σ₁)) :
    ((pace act self absolute (n + 1)).run c).run self σ =
      ((pace act self absolute n).run e).run self σ₁ := by
  rw [pace, run_bind, Script.run_bind, hround]
  rfl

theorem exists_of_pace {n : Nat}
    (hr : ((pace act self absolute (n + 1)).run c).run self σ = (.ok (.ok true, d), σ')) :
    ∃ e σ₁, ((round act self absolute).run c).run self σ = (.ok (.ok true, e), σ₁) ∧
      ((pace act self absolute n).run e).run self σ₁ = (.ok (.ok true, d), σ') := by
  rw [pace, run_bind, Script.run_bind] at hr
  cases hround : ((round act self absolute).run c).run self σ with
  | mk outcome σ₁ =>
    rw [hround] at hr
    obtain crash | ⟨g | goesOn, e⟩ := outcome
    · cases hr
    · cases hr
    · cases goesOn with
      | false => cases hr
      | true => exact ⟨e, σ₁, rfl, hr⟩

theorem exists_of_rounds {fuel : Nat} {answer : Except Failure Unit}
    (hr : ((rounds act self absolute fuel).run c).run self σ = (.ok (answer, d), σ')) :
    ∃ n base σ₁ last, ((pace act self absolute n).run c).run self σ = (.ok (.ok true, base), σ₁) ∧
      ((round act self absolute).run base).run self σ₁ = (.ok (last, d), σ') ∧
        last ≠ .ok true ∧ answer = last.map fun _ => () := by
  induction fuel generalizing c σ with
  | zero => cases hr
  | succ fuel ih =>
    rw [rounds, run_bind, Script.run_bind] at hr
    cases hround : ((round act self absolute).run c).run self σ with
    | mk outcome σ₁ =>
      rw [hround] at hr
      obtain crash | ⟨g | goesOn, e⟩ := outcome
      · cases hr
      · cases hr
        exact ⟨0, c, σ, .error g, rfl, hround, by rintro ⟨⟩, rfl⟩
      · cases goesOn with
        | false =>
          cases hr
          exact ⟨0, c, σ, .ok false, rfl, hround, by rintro ⟨⟩, rfl⟩
        | true =>
          obtain ⟨n, base, σ₂, last, hpace, hlast⟩ := ih hr
          exact ⟨n + 1, base, σ₂, last, (pace_of_round n hround).trans hpace, hlast⟩

theorem exists_of_rounds_error {fuel : Nat} {f : Failure}
    (hr : ((rounds act self absolute fuel).run c).run self σ = (.ok (.error f, d), σ')) :
    ∃ n base σ₁, ((pace act self absolute n).run c).run self σ = (.ok (.ok true, base), σ₁) ∧
      ((round act self absolute).run base).run self σ₁ = (.ok (.error f, d), σ') := by
  obtain ⟨n, base, σ₁, last, hpace, hlast, -, hanswer⟩ := exists_of_rounds hr
  cases last with
  | ok goesOn => cases hanswer
  | error g =>
    cases hanswer
    exact ⟨n, base, σ₁, hpace, hlast⟩

/-- A step that crashes ran some commands and crashed at the next, unless it would have gone on when its
fuel ran out. -/
theorem exists_of_rounds_crash {fuel : Nat} {crash : Crash}
    (hr : ((rounds act self absolute fuel).run c).run self σ = (.error crash, σ')) :
    (crash = .exhausted ∧
      ∃ d, ((pace act self absolute fuel).run c).run self σ = (.ok (.ok true, d), σ')) ∨
      ∃ n base σ₁, ((pace act self absolute n).run c).run self σ = (.ok (.ok true, base), σ₁) ∧
        ((round act self absolute).run base).run self σ₁ = (.error crash, σ') := by
  induction fuel generalizing c σ with
  | zero =>
    cases hr
    exact .inl ⟨rfl, c, rfl⟩
  | succ fuel ih =>
    rw [rounds, run_bind, Script.run_bind] at hr
    cases hround : ((round act self absolute).run c).run self σ with
    | mk outcome σ₁ =>
      rw [hround] at hr
      obtain crash' | ⟨g | goesOn, e⟩ := outcome
      · cases hr
        exact .inr ⟨0, c, σ, rfl, hround⟩
      · cases hr
      · cases goesOn with
        | false => cases hr
        | true =>
          rcases ih hr with ⟨hcrash, d, hpace⟩ | ⟨n, base, σ₂, hpace, hlast⟩
          · exact .inl ⟨hcrash, d, (pace_of_round fuel hround).trans hpace⟩
          · exact .inr ⟨n + 1, base, σ₂, (pace_of_round n hround).trans hpace, hlast⟩

/-- An update that does not crash was refused, or it ran some commands and the next was its last. -/
theorem exists_of_update {fuel : Nat} {delta : Seconds} {answer : Except Failure Unit}
    (hr : (Chain.behaviour act fuel (.update delta absolute) self c).run self σ =
      (.ok (answer, d), σ')) :
    (∃ f, ((start : ChainRun κ ω α Unit).run c).run self σ = (.ok (.error f, d), σ')) ∨
      ∃ e σ₁ n base σ₂ last,
        ((start : ChainRun κ ω α Unit).run c).run self σ = (.ok (.ok (), e), σ₁) ∧
          ((pace act self absolute n).run e).run self σ₁ = (.ok (.ok true, base), σ₂) ∧
            ((round act self absolute).run base).run self σ₂ = (.ok (last, d), σ') ∧
              last ≠ .ok true := by
  rw [Chain.behaviour, step, run_bind, Script.run_bind] at hr
  cases hstart : ((start : ChainRun κ ω α Unit).run c).run self σ with
  | mk outcome σ₁ =>
    rw [hstart] at hr
    obtain crash | ⟨f | ⟨⟩, e⟩ := outcome
    · cases hr
    · cases hr
      exact .inl ⟨f, rfl⟩
    · obtain ⟨n, base, σ₂, last, hpace, hlast, hne, -⟩ := exists_of_rounds hr
      exact .inr ⟨e, σ₁, n, base, σ₂, last, rfl, hpace, hlast, hne⟩

/-- A step that does not go on behind so many rounds comes to the same with more of them. -/
theorem rounds_of_pace {n fuel : Nat}
    (h : ∀ d σ', ((pace act self absolute n).run c).run self σ ≠ (.ok (.ok true, d), σ'))
    (hf : n ≤ fuel) : ((rounds act self absolute fuel).run c).run self σ =
      ((rounds act self absolute n).run c).run self σ := by
  have hsame (more : Nat) : ((rounds act self absolute (n + more)).run c).run self σ =
      match ((pace act self absolute n).run c).run self σ with
      | (.ok (answer, d), σ₁) => (.ok (answer.map fun _ => (), d), σ₁)
      | (.error crash, σ₁) => (.error crash, σ₁) := by
    rw [rounds_add, run_bind, Script.run_bind]
    cases hpace : ((pace act self absolute n).run c).run self σ with
    | mk outcome σ₁ =>
      obtain crash | ⟨f | goesOn, d⟩ := outcome
      · rfl
      · rfl
      · cases goesOn with
        | true => exact (h d σ₁ hpace).elim
        | false => rfl
  obtain ⟨more, rfl⟩ := Nat.exists_eq_add_of_le hf
  rw [hsame, ← hsame 0]
  rfl

end ChainRun
end FrameChain
