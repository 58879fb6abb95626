import FrameChain.Proofs.Chain.Cursor

set_option autoImplicit false

namespace FrameChain

open Chain

variable {κ ω α : Type}

namespace ChainRun

/-- At most `n` rounds. True if the step goes on behind them. -/
def pace (act : α → Caller → Script κ ω (Except Failure Unit)) (self : Caller) (absolute : Seconds) :
    Nat → ChainRun κ ω α Bool
  | 0 => return true
  | n + 1 => do if ← round act self absolute then pace act self absolute n else return false

theorem rounds_add (act : α → Caller → Script κ ω (Except Failure Unit)) (self : Caller)
    (absolute : Seconds) (n fuel : Nat) :
    rounds act self absolute (n + fuel) = (do
      if ← pace act self absolute n then rounds act self absolute fuel) := by
  induction n with
  | zero => rw [Nat.zero_add]; rfl
  | succ n ih =>
    rw [Nat.add_right_comm, rounds, pace, ih, bind_assoc]
    congr 1
    funext goesOn
    cases goesOn with
    | true => rfl
    | false => rw [if_neg Bool.false_ne_true, if_neg Bool.false_ne_true, pure_bind]; rfl

theorem pace_succ (act : α → Caller → Script κ ω (Except Failure Unit)) (self : Caller)
    (absolute : Seconds) (n : Nat) : pace act self absolute (n + 1) = (do
      if ← pace act self absolute n then round act self absolute else return false) := by
  induction n with
  | zero =>
    have hround : (round act self absolute >>= fun goesOn => if goesOn then pure true else pure false) =
        round act self absolute := by
      rw [← bind_pure (round act self absolute), bind_assoc]
      congr 1
      funext goesOn
      cases goesOn <;> rfl
    exact hround
  | succ n ih =>
    conv => rhs; rw [pace, bind_assoc]
    rw [pace, ih]
    congr 1
    funext goesOn
    cases goesOn with
    | true => rfl
    | false => rw [if_neg Bool.false_ne_true, if_neg Bool.false_ne_true, pure_bind]; rfl

end ChainRun

namespace ChainRun

variable [Named κ] {act : α → Caller → Script κ ω (Except Failure Unit)} {self : Caller}
  {l : List Entry} {depth : Nat}

theorem triple_pace (absolute : Seconds) (hn : Nested Prod.snd depth l) (n : Nat) :
    Triple self (fun c => Placed l c ∧ c.isRunning = true) (pace act self absolute n)
      (fun goesOn c => Placed l c ∧ (goesOn = true → c.isRunning = true)) (Fails act self l) := by
  -- By induction on the rounds: each of them leaves the chain at a place of its listing.
  induction n with
  | zero => exact triple_pure fun c hc => ⟨hc.1, fun _ => hc.2⟩
  | succ n ih =>
    refine triple_bind (triple_round absolute hn) fun goesOn => triple_ite (fun hgo => ?_) fun _ => ?_
    · exact ih.weaken fun c hc => ⟨hc.1, hc.2 hgo⟩
    · exact triple_pure fun c hc => ⟨hc.1, nofun⟩

theorem triple_rounds (absolute : Seconds) (hn : Nested Prod.snd depth l) (fuel : Nat) :
    Triple self (fun c => Placed l c ∧ c.isRunning = true) (rounds act self absolute fuel)
      (fun _ => Placed l) (Fails act self l) := by
  rw [← Nat.add_zero fuel, rounds_add]
  refine triple_bind (triple_pace absolute hn fuel) fun goesOn => triple_ite (fun _ => ?_) fun _ => ?_
  · rw [rounds]
    exact triple_crash
  · exact triple_pure fun c hc => hc.1

theorem triple_start (hn : Nested Prod.snd depth l) :
    Triple self (Placed l) (start : ChainRun κ ω α Unit) (fun _ c => Placed l c ∧ c.isRunning = true)
      fun f c => Placed l c ∧ Mild f := by
  have hgo : Triple self (fun c : Chain κ ω α => Placed l c ∧ c.finished = false ∧ c.jumpsStale = false)
      (do
        let c ← chain
        if !c.started then set { c with started := true, current := c.head })
      (fun _ c => Placed l c ∧ c.isRunning = true) fun f c => Placed l c ∧ Mild f := by
    refine triple_chain fun base hb => ?_
    obtain ⟨h, hfinished, hstale⟩ := hb
    refine triple_ite (fun hs => triple_set fun _ _ => ?_) fun hs => triple_pure fun c hc => ?_
    · have hfresh : base.started = false := by simpa using hs
      exact ⟨h.start hfresh hstale, by simp [isRunning, hfinished]⟩
    · subst hc
      exact ⟨h, by simpa [isRunning, hfinished] using hs⟩
  refine triple_chain fun base h => triple_ite (fun _ => ?_) fun hfinished => triple_ite (fun _ => ?_)
    fun hstale => ?_
  · refine triple_bind (Q := fun _ _ => False) (triple_throw ?_) fun _ => ?_
    · rintro _ rfl
      exact ⟨h, rfl⟩
    · exact fun _ _ _ hc => hc.elim
  · rw [← h.listing] at hn
    obtain ⟨c', hc', hresolved⟩ := resolveJumps_nested hn
    obtain ⟨hplaced, hsame, hknown⟩ := h.resolve hresolved
    simp only [hc']
    exact triple_bind (triple_set fun _ _ => ⟨hplaced, by simp [hsame, hfinished], hknown⟩) fun _ => hgo
  · exact hgo.weaken fun c hc => hc ▸ ⟨h, by simpa using hfinished, by simpa using hstale⟩

theorem triple_step (absolute : Seconds) (hn : Nested Prod.snd depth l) (fuel : Nat) :
    Triple self (Placed l) (step act fuel self absolute) (fun _ => Placed l) (Fails act self l) := by
  refine triple_bind ((triple_start hn).imp (fun _ h => h) (fun _ _ h => h) fun f c h =>
    ⟨h.1, fun hscope => ?_⟩) fun _ => triple_rounds absolute hn fuel
  exact absurd (h.2.symm.trans hscope) nofun

theorem triple_notice (m : Message) {E : Failure → Chain κ ω α → Prop} :
    Triple self (Placed l) (notice m) (fun _ => Placed l) E := by
  refine triple_chain fun base h => ?_
  cases base.current with
  | none => exact triple_pure fun c hc => hc ▸ h
  | some id =>
    refine triple_node fun n _ => triple_ite (fun _ => triple_modify fun c hc => ?_) fun _ =>
      triple_pure fun c hc => hc ▸ h
    subst hc
    exact h.unseen _ c.attached

theorem triple_shutDown {E : Failure → Chain κ ω α → Prop} :
    Triple self (Placed l) shutDown (fun _ => Placed l) E := by
  refine triple_bind triple_release fun _ => triple_modify ?_
  rintro _ ⟨c, hc, rfl⟩
  exact hc.ended

end ChainRun

open ChainRun

section History

variable [Named κ]

/-- The states of a chain between two of its callbacks. Anything may happen to the scene and to the
world of the host in between. -/
inductive Rests (act : α → Caller → Script κ ω (Except Failure Unit)) (built : Chain κ ω α) :
    Chain κ ω α → Prop
  | built : Rests act built built
  | called {c c' : Chain κ ω α} (fuel : Nat) (callback : Callback) (self : Caller)
      {answer : Except Failure Unit} (h : Rests act built c)
      (hr : (Chain.behaviour act fuel callback self c).Answers self (answer, c')) : Rests act built c'

/-- The states of a chain between two of its callbacks or, in an update, between two of its commands. -/
inductive Met (act : α → Caller → Script κ ω (Except Failure Unit)) (built : Chain κ ω α) :
    Chain κ ω α → Prop
  | between {c : Chain κ ω α} (h : Rests act built c) : Met act built c
  | within {c c' : Chain κ ω α} (self : Caller) (absolute : Seconds) (n : Nat)
      {answer : Except Failure Bool} (h : Rests act built c)
      (hr : ((start >>= fun _ => pace act self absolute n).run c).Answers self (answer, c')) :
      Met act built c'

variable {act : α → Caller → Script κ ω (Except Failure Unit)} {l : List Entry} {depth : Nat}
  {built c c' : Chain κ ω α}

theorem Placed.behaviour (hn : Nested Prod.snd depth l) (h : Placed l c) {fuel : Nat}
    {callback : Callback} {self : Caller} {answer : Except Failure Unit}
    (hr : (Chain.behaviour act fuel callback self c).Answers self (answer, c')) :
    Ends (fun _ => Placed l) (Fails act self l) answer c' := by
  cases callback with
  | init =>
    obtain ⟨σ, σ', hr⟩ := hr
    cases hr
    exact h.unseen c.scratch true
  | attach | remove =>
    obtain ⟨σ, σ', hr⟩ := hr
    cases hr
    exact h
  | update delta absolute => exact triple_step absolute hn fuel c answer c' h hr
  | message m => exact triple_notice m c answer c' h hr
  | finish | detach => exact triple_shutDown c answer c' h hr

theorem Rests.placed (hn : Nested Prod.snd depth l) (hb : Placed l built) (h : Rests act built c) :
    Placed l c := by
  induction h with
  | built => exact hb
  | @called _ _ fuel callback self answer _ hr ih =>
    have hends := ih.behaviour hn hr
    cases answer with
    | ok _ => exact hends
    | error f => exact hends.1

theorem Met.placed (hn : Nested Prod.snd depth l) (hb : Placed l built) (h : Met act built c) :
    Placed l c := by
  cases h with
  | between h => exact h.placed hn hb
  | @within _ _ self absolute n answer h hr =>
    have hpace : Triple self (Placed l) (start >>= fun _ => pace act self absolute n)
        (fun _ => Placed l) fun _ => Placed l :=
      triple_bind ((triple_start hn).imp (fun _ h => h) (fun _ _ h => h) fun _ _ h => h.1) fun _ =>
        (triple_pace absolute hn n).imp (fun _ h => h) (fun _ _ h => h.1) fun _ _ h => h.1
    have hends := hpace _ answer c (h.placed hn hb) hr
    cases answer <;> exact hends

end History

end FrameChain
