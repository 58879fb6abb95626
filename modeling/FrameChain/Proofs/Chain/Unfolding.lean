import FrameChain.Proofs.Chain.Passes

set_option autoImplicit false

namespace FrameChain

open Chain ChainRun

variable {κ ω α : Type}

/-- One round: the chain and the setting that it found, the time of its step, its answer, and what it
left. -/
structure Round (κ ω α : Type) where
  chain : Chain κ ω α
  setting : Setting κ ω
  absolute : Seconds
  answer : Except Failure Bool
  after : Chain κ ω α
  left : Setting κ ω

namespace Round

def now (r : Round κ ω α) : Option Seconds :=
  match r.answer with
  | .ok true => some r.absolute
  | _ => none

variable [Named κ]

def Happens (act : α → Caller → Script κ ω (Except Failure Unit)) (caller : Caller)
    (r : Round κ ω α) : Prop :=
  ((round act caller r.absolute).run r.chain).run caller r.setting = (.ok (r.answer, r.after), r.left)

structure Runs (r : Round κ ω α) (caller : Caller) (id : NodeId) : Prop where
  undisturbed : r.chain.Undisturbed caller r.setting
  cursor : r.chain.current = some id

structure Turns (r : Round κ ω α) (act : α → Caller → Script κ ω (Except Failure Unit)) (caller : Caller)
    (id : NodeId) (here : Node κ ω α) : Prop extends r.Runs caller id where
  node : r.chain.nodes[id]? = some here
  turn : ((ChainRun.turn act caller r.absolute id).run r.chain).run caller
    (checked r.chain r.setting) = (.ok (r.answer, r.after), r.left)

variable {act : α → Caller → Script κ ω (Except Failure Unit)} {caller : Caller} {r : Round κ ω α}
  {id : NodeId}

theorem Runs.turns (h : r.Runs caller id) (hr : r.Happens act caller) :
    ∃ here, r.Turns act caller id here := by
  rw [Happens, outcome_round h.undisturbed h.cursor] at hr
  cases hn : r.chain.nodes[id]? with
  | some here => exact ⟨here, h, hn, hr⟩
  | none =>
    have hnone : Triple caller (· = r.chain) (ChainRun.turn act caller r.absolute id)
        (fun _ _ => False) fun _ _ => False :=
      triple_turn_of fun here hn' => absurd (hn.symm.trans hn') (by rintro ⟨⟩)
    have hends := hnone r.chain r.answer r.after rfl ⟨_, _, hr⟩
    cases ha : r.answer <;> rw [ha] at hends <;> exact hends.elim

theorem Turns.turned {here : Node κ ω α} (h : r.Turns act caller id here) (hneat : r.chain.Neat) :
    ∃ log, ((ChainRun.turn act caller r.absolute id).run r.chain).Tells act caller r.chain
      (checked r.chain r.setting) log (r.answer, r.after) r.left ∧
        Turned r.chain id here log r.answer r.after :=
  (accounts_turn hneat h.cursor h.node).tells h.turn

theorem Turns.exists_visit {here : Node κ ω α} (h : r.Turns act caller id here) (hneat : r.chain.Neat)
    (hk : here.command.opcode.kind = .plain) :
    ∃ (e : Errand κ ω α) (v : Visit κ ω α), e.command = here.command ∧ e.scratch = r.chain.scratch ∧
      (e.visit act caller r.absolute r.chain.name).run caller (checked r.chain r.setting) =
        (.ok v, r.left) ∧ v.turned r.chain id = (r.answer, r.after) := by
  obtain ⟨e, hc, hs⟩ := hneat.exists_errand h.cursor h.node hk
  have hturn := h.turn
  rw [run_turn_errand h.node act caller r.absolute hc hs] at hturn
  obtain ⟨v, σ₁, hv, hend⟩ := Script.exists_of_bind hturn
  obtain ⟨hout, rfl⟩ := Prod.mk.inj hend
  exact ⟨e, v, hc, hs, hv, Except.ok.inj hout⟩

/-- What a round asks for, in this order. -/
def Asks (act : α → Caller → Script κ ω (Except Failure Unit)) (caller : Caller) (r : Round κ ω α)
    (log : List Sample) : Prop :=
  ((round act caller r.absolute).run r.chain).Tells act caller r.chain r.setting log
    (r.answer, r.after) r.left

theorem Happens.asks (h : r.Happens act caller) (hneat : r.chain.Neat) :
    ∃ log, r.Asks act caller log ∧ Rounded r.chain log r.answer r.after :=
  (accounts_round hneat).tells h

structure Rests (r : Round κ ω α) (caller : Caller) : Prop where
  idle : ∀ id, ¬ r.Runs caller id
  stays : r.answer ≠ .ok true
  after : r.after = r.chain ∨ r.after = { r.chain.released with finished := true }

theorem Happens.cases (h : r.Happens act caller) :
    (∃ id here, r.Turns act caller id here) ∨ r.Rests caller := by
  by_cases hr : ∃ id, r.Runs caller id
  · obtain ⟨id, hr⟩ := hr
    obtain ⟨here, ht⟩ := hr.turns h
    exact .inl ⟨id, here, ht⟩
  · have hidle (id : NodeId) (hi : r.Runs caller id) : False := hr ⟨id, hi⟩
    obtain ⟨chain, setting, absolute, answer, after, left⟩ := r
    have hp : ChainRun.Passed act caller absolute chain setting answer after left := passed_round h
    cases hp with
    | stopped => exact .inr ⟨hidle, by rintro ⟨⟩, .inl rfl⟩
    | ended => exact .inr ⟨hidle, by rintro ⟨⟩, .inr rfl⟩
    | unclosed => exact .inr ⟨hidle, by rintro ⟨⟩, .inl rfl⟩
    | turned hu hcur hn hturn => exact absurd ⟨hu, hcur⟩ (hidle _)

theorem Happens.cleared (h : r.Happens act caller) (hn : r.chain.Neat) (ha : r.answer = .ok true) :
    r.after.scratch = {} := by
  have hends := triple_round_neat r.chain r.answer r.after hn ⟨_, _, h⟩
  rw [ha] at hends
  exact hends.2 rfl

theorem Happens.stays (h : r.Happens act caller) (hn : r.chain.Neat) (ha : r.answer ≠ .ok true)
    (hf : r.after.finished = false) : r.after.current = r.chain.current := by
  rcases h.cases with ⟨id, here, ht⟩ | hrests
  · obtain ⟨log, -, hturned⟩ := ht.turned hn
    exact hturned.stays ha
  · rcases hrests.after with hafter | hafter
    · rw [hafter]
    · rw [hafter] at hf
      cases hf

theorem Happens.neat (h : r.Happens act caller) (hn : r.chain.Neat) : r.after.Neat := by
  have hends := triple_round_neat r.chain r.answer r.after hn ⟨_, _, h⟩
  cases ha : r.answer <;> rw [ha] at hends
  · exact hends
  · exact hends.1

theorem Happens.unfinished (h : r.Happens act caller) (hn : r.chain.Neat)
    (hf : r.after.finished = false) : r.chain.finished = false := by
  rcases h.cases with ⟨id, here, ht⟩ | hrests
  · exact (hn.running ht.cursor).2
  · rcases hrests.after with hafter | hafter
    · rwa [hafter] at hf
    · rw [hafter] at hf
      cases hf

theorem Happens.placed {l : List Entry} {depth : Nat} (h : r.Happens act caller)
    (hn : Nested Prod.snd depth l) (hp : Placed l r.chain) (hrun : r.chain.isRunning = true) :
    Ends (fun goesOn d => Placed l d ∧ (goesOn = true → d.isRunning = true)) (Fails act caller l)
      r.answer r.after :=
  triple_round r.absolute hn r.chain r.answer r.after ⟨hp, hrun⟩ ⟨_, _, h⟩

theorem Happens.elsewhere (h : r.Happens act caller) (hneat : r.chain.Neat)
    (hid : ¬ r.Runs caller id) (hr : r.chain.opcode? id ≠ some .beginRepeat) :
    r.after.command? id = r.chain.command? id := by
  rcases h.cases with ⟨i, here, ht⟩ | hrests
  · obtain ⟨log, -, hturned⟩ := ht.turned hneat
    refine hturned.elsewhere ?_ hr
    rintro rfl
    exact hid ht.toRuns
  · rcases hrests.after with hafter | hafter
    · rw [hafter]
    · rw [hafter]
      rfl

end Round

/-- What may happen to a chain while it makes no round. -/
structure Chain.Bides (c d : Chain κ ω α) : Prop where
  name : d.name = c.name
  interrupts : d.interrupts = c.interrupts
  commands : d.command? = c.command?
  scopes : d.finished = false → d.scopes = c.scopes
  cursor : d.finished = false → c.finished = false ∧ (c.started = true → d.current = c.current)
  scratch : d.finished = false → c.scratch.messageKey = none → d.scratch = c.scratch

theorem Chain.Bides.refl (c : Chain κ ω α) : c.Bides c :=
  ⟨rfl, rfl, rfl, fun _ => rfl, fun h => ⟨h, fun _ => rfl⟩, fun _ _ => rfl⟩

section Unfolds

variable [Named κ]

/-- The moments of a chain with the rounds before them and the setting, and with the time of the step if the
moment is inside of one. -/
inductive Unfolds (act : α → Caller → Script κ ω (Except Failure Unit)) (caller : Caller)
    (built : Chain κ ω α) :
    List (Round κ ω α) → Chain κ ω α → Setting κ ω → Option Seconds → Prop
  | built (σ : Setting κ ω) : Unfolds act caller built [] built σ none
  | meanwhile {rounds : List (Round κ ω α)} {c : Chain κ ω α} {σ : Setting κ ω} (σ' : Setting κ ω)
      (h : Unfolds act caller built rounds c σ none) : Unfolds act caller built rounds c σ' none
  | called {rounds : List (Round κ ω α)} {c c' : Chain κ ω α} {σ σ' : Setting κ ω} (fuel : Nat)
      (callback : Callback) {answer : Except Failure Unit}
      (h : Unfolds act caller built rounds c σ none)
      (hc : ∀ delta absolute, callback ≠ .update delta absolute)
      (hr : (Chain.behaviour act fuel callback caller c).run caller σ = (.ok (answer, c'), σ')) :
      Unfolds act caller built rounds c' σ' none
  | refused {rounds : List (Round κ ω α)} {c c' : Chain κ ω α} {σ σ' : Setting κ ω} {f : Failure}
      (h : Unfolds act caller built rounds c σ none)
      (hr : ((start : ChainRun κ ω α Unit).run c).run caller σ = (.ok (.error f, c'), σ')) :
      Unfolds act caller built rounds c' σ' none
  | begun {rounds : List (Round κ ω α)} {c c' : Chain κ ω α} {σ σ' : Setting κ ω} (absolute : Seconds)
      (h : Unfolds act caller built rounds c σ none)
      (hr : ((start : ChainRun κ ω α Unit).run c).run caller σ = (.ok (.ok (), c'), σ')) :
      Unfolds act caller built rounds c' σ' (some absolute)
  | round {rounds : List (Round κ ω α)} (r : Round κ ω α)
      (h : Unfolds act caller built rounds r.chain r.setting (some r.absolute))
      (hr : r.Happens act caller) : Unfolds act caller built (rounds ++ [r]) r.after r.left r.now

variable {act : α → Caller → Script κ ω (Except Failure Unit)} {caller : Caller}
  {built c c' : Chain κ ω α} {σ σ' : Setting κ ω} {now : Option Seconds}
  {rounds : List (Round κ ω α)}

theorem Unfolds.pace {n : Nat} {absolute : Seconds}
    (h : Unfolds act caller built rounds c σ (some absolute))
    (hr : ((ChainRun.pace act caller absolute n).run c).run caller σ = (.ok (.ok true, c'), σ')) :
    ∃ more, Unfolds act caller built (rounds ++ more) c' σ' (some absolute) := by
  induction n generalizing c σ rounds with
  | zero =>
    cases hr
    exact ⟨[], by rwa [List.append_nil]⟩
  | succ n ih =>
    obtain ⟨d, σ₁, hround, hr⟩ := exists_of_pace hr
    obtain ⟨more, hmore⟩ := ih (.round ⟨c, σ, absolute, .ok true, d, σ₁⟩ h hround) hr
    exact ⟨_ :: more, by rwa [List.append_assoc] at hmore⟩

/-- Every update is a row of rounds. -/
theorem Unfolds.update {fuel : Nat} {delta absolute : Seconds} {answer : Except Failure Unit}
    (h : Unfolds act caller built rounds c σ none)
    (hr : (Chain.behaviour act fuel (.update delta absolute) caller c).run caller σ =
      (.ok (answer, c'), σ')) :
    ∃ more, Unfolds act caller built (rounds ++ more) c' σ' none := by
  obtain ⟨f, hstart⟩ | ⟨d, σ₁, n, base, σ₂, last, hstart, hpace, hlast, hne⟩ := exists_of_update hr
  · exact ⟨[], by rw [List.append_nil]; exact .refused h hstart⟩
  · obtain ⟨more, hmore⟩ := (Unfolds.begun absolute h hstart).pace hpace
    have hround := Unfolds.round ⟨base, σ₂, absolute, last, c', σ'⟩ hmore hlast
    have hnow : Round.now ⟨base, σ₂, absolute, last, c', σ'⟩ = none := by
      cases last with
      | error f => rfl
      | ok goesOn =>
        cases goesOn with
        | false => rfl
        | true => exact absurd rfl hne
    rw [hnow, List.append_assoc] at hround
    exact ⟨_, hround⟩

omit [Named κ] in
theorem bides_opening {d : Chain κ ω α} (ho : c.opening = .ok d) : c.Bides d := by
  obtain ⟨r, hcommands, hsame, hfin, rfl⟩ := exists_rejumped ho
  refine ⟨?_, ?_, ?_, fun _ => ?_, fun _ => ⟨hfin, fun hs => ?_⟩, fun _ _ => ?_⟩
  · rw [apply_ite Chain.name, ite_self]
    exact hsame.read Chain.name
  · rw [apply_ite Chain.interrupts, ite_self]
    exact hsame.read Chain.interrupts
  · refine (apply_ite Chain.command? ..).trans ((ite_self _).trans (funext hcommands))
  · rw [apply_ite Chain.scopes, ite_self]
    exact hsame.read Chain.scopes
  · have hstarted : r.started = c.started := hsame.read Chain.started
    rw [hstarted, hs, if_pos rfl]
    exact hsame.read Chain.current
  · rw [apply_ite Chain.scratch, ite_self]
    exact hsame.read Chain.scratch

theorem bides_called {fuel : Nat} {callback : Callback}
    (hc : ∀ delta absolute, callback ≠ .update delta absolute) {answer : Except Failure Unit}
    (hr : (Chain.behaviour act fuel callback caller c).run caller σ = (.ok (answer, c'), σ')) :
    c.Bides c' := by
  cases callback with
  | init =>
    cases hr
    exact ⟨rfl, rfl, rfl, fun _ => rfl, fun h => ⟨h, fun _ => rfl⟩, fun _ _ => rfl⟩
  | attach | remove =>
    cases hr
    exact .refl c
  | update delta absolute => exact absurd rfl (hc delta absolute)
  | message m =>
    obtain ⟨-, rfl | ⟨hk, rfl⟩⟩ := outcome_notice hr
    · exact .refl _
    · refine ⟨rfl, rfl, rfl, fun _ => rfl, fun h => ⟨h, fun _ => rfl⟩, fun _ hnone => ?_⟩
      cases hnone.symm.trans hk
  | finish | detach =>
    have hend : Triple caller (· = c) (shutDown : ChainRun κ ω α Unit)
        (fun _ d => d = { c.released with finished := true }) fun _ _ => False := by
      refine triple_bind triple_release fun _ => triple_modify ?_
      rintro _ ⟨_, rfl, rfl⟩
      rfl
    have hends := hend c answer c' rfl ⟨σ, σ', hr⟩
    cases answer with
    | error f => exact hends.elim
    | ok _ =>
      obtain rfl := hends
      exact ⟨rfl, rfl, rfl, nofun, nofun, nofun⟩

/-- By induction on the moments: what a pause between rounds keeps and a round keeps, a history keeps. -/
theorem Unfolds.along {P : List (Round κ ω α) → Chain κ ω α → Prop} (hb : built.Neat)
    (h : Unfolds act caller built rounds c σ now) (hbuilt : P [] built)
    (hbides : ∀ {rounds c d}, P rounds c → c.Neat → d.Neat → c.Bides d → P rounds d)
    (hround : ∀ {rounds} {r : Round κ ω α},
      Unfolds act caller built rounds r.chain r.setting (some r.absolute) → P rounds r.chain →
        r.chain.Neat → r.Happens act caller → P (rounds ++ [r]) r.after) : c.Neat ∧ P rounds c := by
  induction h with
  | built σ => exact ⟨hb, hbuilt⟩
  | meanwhile σ' _ ih => exact ih
  | called fuel callback _ hc hr ih =>
    have hneat := neat_behaviour ih.1 ⟨_, _, hr⟩
    exact ⟨hneat, hbides ih.2 ih.1 hneat (bides_called hc hr)⟩
  | refused _ hr ih =>
    obtain ⟨rfl, rfl⟩ := eq_of_refused hr
    exact ih
  | begun absolute _ hr ih =>
    obtain ⟨ho, rfl⟩ := opening_of_start hr
    have hneat := (ih.1.opening ho).1
    exact ⟨hneat, hbides ih.2 ih.1 hneat (bides_opening ho)⟩
  | round r h hr ih => exact ⟨hr.neat ih.1, hround h ih.2 ih.1 hr⟩

theorem Unfolds.placed {l : List Entry} {depth : Nat} (hn : Nested Prod.snd depth l)
    (hb : Placed l built) (h : Unfolds act caller built rounds c σ now) :
    Placed l c ∧ (now.isSome → c.isRunning = true) := by
  -- By induction on the moments: a well-nested chain stands at a place of its listing, and it is running
  -- inside of a step.
  induction h with
  | built σ => exact ⟨hb, by rintro ⟨⟩⟩
  | meanwhile σ' _ ih => exact ih
  | @called _ _ _ _ _ fuel callback answer _ _ hr ih =>
    have hends := ih.1.behaviour hn ⟨_, _, hr⟩
    refine ⟨?_, by rintro ⟨⟩⟩
    cases answer with
    | ok _ => exact hends
    | error f => exact hends.1
  | refused _ hr ih => exact ⟨(triple_start hn _ (.error _) _ ih.1 ⟨_, _, hr⟩).1, by rintro ⟨⟩⟩
  | begun absolute _ hr ih =>
    obtain ⟨hplaced, hrun⟩ := triple_start hn _ (.ok ()) _ ih.1 ⟨_, _, hr⟩
    exact ⟨hplaced, fun _ => hrun⟩
  | round r _ hr ih =>
    have hends := hr.placed hn ih.1 (ih.2 rfl)
    rw [Round.now]
    cases ha : r.answer with
    | error f =>
      rw [ha] at hends
      exact ⟨hends.1, by rintro ⟨⟩⟩
    | ok goesOn =>
      rw [ha] at hends
      refine ⟨hends.1, ?_⟩
      cases goesOn with
      | false => rintro ⟨⟩
      | true => exact fun _ => hends.2 rfl

end Unfolds

end FrameChain
