import FrameChain.Proofs.Anchoring
import FrameChain.Proofs.Structured.Standing

set_option autoImplicit false

/-! Loops lead a step back to commands that it had already. If every loop of a chain suspends, unless it
is certain to count down, no step goes on for ever. -/
namespace FrameChain

open Chain ChainRun

variable {κ ω α : Type}

theorem Command.exists_errand {command : Command κ ω α} (hk : command.opcode.kind = .plain)
    (hf : command.reset = command) : ∃ e : Errand κ ω α, e.fresh.command = command := by
  obtain ⟨e, rfl, -⟩ := Memo.Suits.exists_errand (.empty command.note.memo) hk
  exact ⟨e, (Errand.command_fresh e).trans hf⟩

theorem Command.eq_otherwise {command : Command κ ω α} (h : command.opcode = .otherwise) :
    command = .otherwise := by
  cases command <;> first | rfl | cases h

theorem Command.eq_endIf {command : Command κ ω α} (h : command.opcode = .endIf) : command = .endIf := by
  cases command <;> first | rfl | cases h

theorem Command.eq_beginIf {command : Command κ ω α} (h : command.opcode = .beginIf) :
    ∃ holds, command = .beginIf holds := by
  cases command <;> first | exact ⟨_, rfl⟩ | cases h

/-- Every well-nested list of commands that remember nothing is that of a program. By induction on the
nesting. -/
theorem Program.exists_of_nested {commands : List (Command κ ω α)} {depth : Nat}
    (hn : Nested Command.opcode depth commands) (hf : ∀ command ∈ commands, command.reset = command) :
    ∃ p : Program κ ω α, p.commands = commands := by
  induction hn with
  | nil => exact ⟨.done, rfl⟩
  | plain hk _ ih =>
    obtain ⟨hhere, hrest⟩ := List.forall_mem_cons.mp hf
    obtain ⟨e, rfl⟩ := Command.exists_errand hk hhere
    obtain ⟨next, rfl⟩ := ih hrest
    exact ⟨.simple e next, rfl⟩
  | @loop _ opener closer body rest hc _ _ ihb ihr =>
    obtain ⟨hopener, htail⟩ := List.forall_mem_cons.mp hf
    obtain ⟨hbody, hrest⟩ := List.forall_mem_append.mp htail
    obtain ⟨p, rfl⟩ := ihb hbody
    obtain ⟨next, rfl⟩ := ihr (List.forall_mem_cons.mp hrest).2
    cases opener with
    | beginRepeat times infinite =>
      have hcloser : closer = .endRepeat := by cases closer <;> first | rfl | cases hc
      -- A command that remembers nothing has no count of its passes.
      obtain ⟨param, cached⟩ := times
      cases hopener
      exact ⟨.repeatTimes param p next, by rw [hcloser]; rfl⟩
    | beginWhile holds =>
      have hcloser : closer = .endWhile := by cases closer <;> first | rfl | cases hc
      exact ⟨.doWhile holds p next, by rw [hcloser]; rfl⟩
    | beginInterval seconds =>
      have hcloser : closer = .endInterval := by cases closer <;> first | rfl | cases hc
      obtain ⟨param, cached⟩ := seconds
      cases hopener
      exact ⟨.interval param p next, by rw [hcloser]; rfl⟩
    | _ => cases hc
  | ifThen hs hfin _ _ ihy ihr =>
    obtain ⟨holds, rfl⟩ := Command.eq_beginIf hs
    obtain rfl := Command.eq_endIf hfin
    obtain ⟨hyes, hrest⟩ := List.forall_mem_append.mp (List.forall_mem_cons.mp hf).2
    obtain ⟨yes, rfl⟩ := ihy hyes
    obtain ⟨next, rfl⟩ := ihr (List.forall_mem_cons.mp hrest).2
    exact ⟨.ifThen holds yes next, rfl⟩
  | ifElse hs hb hfin _ _ _ ihy ihn ihr =>
    obtain ⟨holds, rfl⟩ := Command.eq_beginIf hs
    obtain rfl := Command.eq_otherwise hb
    obtain rfl := Command.eq_endIf hfin
    obtain ⟨hyes, htail⟩ := List.forall_mem_append.mp (List.forall_mem_cons.mp hf).2
    obtain ⟨hno, hrest⟩ := List.forall_mem_append.mp (List.forall_mem_cons.mp htail).2
    obtain ⟨yes, rfl⟩ := ihy hyes
    obtain ⟨no, rfl⟩ := ihn hno
    obtain ⟨next, rfl⟩ := ihr (List.forall_mem_cons.mp hrest).2
    exact ⟨.ifElse holds yes no next, rfl⟩

namespace Chain

variable (interrupts : List (HostFun ω Bool))

theorem foldl_interrupts {β : Type} {f : Chain κ ω α → β → Chain κ ω α}
    (h : ∀ c b, f { c with interrupts } b = { f c b with interrupts }) (l : List β) (c : Chain κ ω α) :
    l.foldl f { c with interrupts } = { l.foldl f c with interrupts } := by
  induction l generalizing c with
  | nil => rfl
  | cons b rest ih => rw [List.foldl_cons, h, ih, List.foldl_cons]

theorem resolveJumps_interrupts (c : Chain κ ω α) :
    ({ c with interrupts } : Chain κ ω α).resolveJumps =
      c.resolveJumps.map fun r => { r with interrupts } := by
  have hlisting : ({ c with interrupts } : Chain κ ω α).listing = c.listing := rfl
  rw [resolveJumps, resolveJumps, hlisting]
  cases links [] c.listing with
  | error e => rfl
  | ok found =>
    have hclear : ({ c with interrupts } : Chain κ ω α).cleared = { c.cleared with interrupts } :=
      foldl_interrupts interrupts (fun _ _ => rfl) c.walk c
    have hlink : setJumps { c.cleared with interrupts } found =
        { c.cleared.setJumps found with interrupts } :=
      foldl_interrupts interrupts (fun _ _ => rfl) found c.cleared
    exact congrArg (fun r : Chain κ ω α => Except.ok { r with jumpsStale := false })
      ((congrArg (setJumps · found) hclear).trans hlink)

theorem opening_interrupts (c : Chain κ ω α) :
    ({ c with interrupts } : Chain κ ω α).opening = c.opening.map fun r => { r with interrupts } := by
  rw [opening, opening, resolveJumps_interrupts]
  generalize c.resolveJumps = resolved
  obtain ⟨name, nodes, head, tail, current, started, attached, finished, stale, scopes, scratch, -⟩ := c
  cases finished with
  | true => rfl
  | false =>
    cases stale with
    | false => cases started <;> rfl
    | true =>
      cases resolved with
      | error f => rfl
      | ok r =>
        cases r with
        | mk name nodes head tail current started => cases started <;> rfl

theorem opening_idle (name : String) (attached : Bool) (p : Program κ ω α) :
    (Chain.idle name attached (bare p.commands)).opening =
      .ok (Spot.chain name attached { focus := .entering p }) := by
  have ht : Spot.left { focus := .entering p } ++ Spot.right { focus := .entering p } = p.tokens :=
    List.append_nil _
  have hidle : (Chain.idle name attached (bare p.commands)).finished = false ∧
      (Chain.idle name attached (bare p.commands)).jumpsStale = true := ⟨rfl, rfl⟩
  rw [opening, hidle.1, hidle.2, Chain.resolveJumps_idle, Spot.chain, ht]
  rfl

/-- The chain of a program with these interrupts: new, at a spot of the program, or at an end. -/
inductive Performs (name : String) (p : Program κ ω α) : Chain κ ω α → Prop
  | ready (attached : Bool) :
      Performs name p { Chain.idle name attached (bare p.commands) with interrupts }
  | running (attached : Bool) {s : Spot κ ω α} (h : s.Stands p) :
      Performs name p { s.chain name attached with interrupts }
  | ended {c : Chain κ ω α} (h : c.finished = true) : Performs name p c

end Chain

section Rounds

variable [Named κ] {act : α → Caller → Script κ ω (Except Failure Unit)} {self : Caller}
  {absolute : Seconds} {interrupts : List (HostFun ω Bool)} {name : String} {attached : Bool}
  {p : Program κ ω α} {s : Spot κ ω α} {d : Chain κ ω α} {σ σ' : Setting κ ω}

/-- A round at a spot of the program ends the chain, or it leaves it at a spot; and if the step goes on then
that is where the interpreter goes on. -/
theorem performs_round (h : s.Stands p)
    (hneat : Chain.Neat { s.chain name attached with interrupts }) {answer : Except Failure Bool}
    (hr : ((round act self absolute).run { s.chain name attached with interrupts }).run self σ =
      (.ok (answer, d), σ')) :
    (d.finished = true ∧ answer ≠ .ok true) ∨
      ∃ s' : Spot κ ω α, s'.Stands p ∧ d = { s'.chain name attached with interrupts } ∧
        (answer = .ok true → (s.step act self absolute name).Answers self (.on s')) := by
  cases passed_round hr with
  | stopped => exact .inr ⟨s, h, rfl, nofun⟩
  | ended => exact .inl ⟨rfl, nofun⟩
  | unclosed => exact .inr ⟨s, h, rfl, nofun⟩
  | @turned id here _ _ _ hu hcur hn hr =>
    have hplain : (s.chain name attached).Neat := ⟨hneat.suits, hneat.blank, hneat.ended⟩
    have hturn : (turn act self absolute id).run (s.chain name attached) =
        (s.step act self absolute name).bind (Pace.answered name attached (s.chain name attached)) :=
      (follows_step ..).run_turn id hcur
    rw [run_turn_interrupts interrupts hplain hcur hn, hturn, Script.bind_assoc] at hr
    obtain ⟨pace, σ₁, hpace, hr⟩ := Script.exists_of_bind hr
    have hstands := h.step ⟨_, _, hpace⟩
    cases pace with
    | on s' =>
      cases hr
      exact .inr ⟨s', hstands s' rfl, rfl, fun _ => ⟨_, _, hpace⟩⟩
    | waiting s' =>
      cases hr
      exact .inr ⟨s', hstands s' rfl, rfl, nofun⟩
    | failed f s' =>
      cases hr
      exact .inr ⟨s', hstands s' rfl, rfl, nofun⟩
    | ended =>
      cases hr
      exact .inl ⟨rfl, nofun⟩

theorem performs_rounds (fuel : Nat) (h : s.Stands p)
    (hneat : Chain.Neat { s.chain name attached with interrupts }) {answer : Except Failure Unit}
    (hr : ((rounds act self absolute fuel).run { s.chain name attached with interrupts }).run self σ =
      (.ok (answer, d), σ')) : d.Performs interrupts name p := by
  induction fuel generalizing s σ with
  | zero => cases hr
  | succ fuel ih =>
    rw [rounds, run_bind] at hr
    obtain ⟨⟨last, e⟩, σ₁, hround, hr⟩ := Script.exists_of_bind hr
    have hcleared : Triple self Neat (round act self absolute) Cleared fun _ => Neat := triple_round_neat
    have hend := hcleared _ last e hneat ⟨σ, σ₁, hround⟩
    rcases performs_round h hneat hround with ⟨hfin, hlast⟩ | ⟨s', hs', rfl, -⟩
    · obtain f | goesOn := last
      · cases hr
        exact .ended hfin
      · cases goesOn with
        | true => exact (hlast rfl).elim
        | false =>
          cases hr
          exact .ended hfin
    · obtain f | goesOn := last
      · cases hr
        exact .running attached hs'
      · cases goesOn with
        | true => exact ih hs' hend.1 hr
        | false =>
          cases hr
          exact .running attached hs'

omit [Named κ] in
theorem run_notice_interrupts (interrupts : List (HostFun ω Bool)) (m : Message) (c : Chain κ ω α) :
    (notice m).run { c with interrupts } =
      ((notice m).run c).bind fun out => .done (out.1, { out.2 with interrupts }) := by
  obtain ⟨name, nodes, head, tail, current, started, attached, finished, stale, scopes, scratch, -⟩ := c
  cases current with
  | none => rfl
  | some id =>
    simp only [notice, node, run_bind, run_chain, Script.bind]
    cases nodes[id]? with
    | none => rfl
    | some n =>
      simp only [run_pure, Script.bind]
      split <;> rfl

omit [Named κ] in
theorem Chain.Performs.opening {c : Chain κ ω α} (h : c.Performs interrupts name p) :
    (∃ attached, ∃ s : Spot κ ω α, s.Stands p ∧
      c.opening = .ok { s.chain name attached with interrupts }) ∨
        c.finished = true ∧ c.opening = .error (.chainFinished c.name) := by
  cases h with
  | ready attached =>
    refine .inl ⟨attached, _, Spot.stands_start p, ?_⟩
    rw [opening_interrupts, opening_idle]
    rfl
  | running attached hs => exact .inl ⟨attached, _, hs, rfl⟩
  | ended hfin => exact .inr ⟨hfin, by rw [Chain.opening, hfin, if_pos rfl]⟩

theorem Chain.Performs.behaviour {c : Chain κ ω α} (h : c.Performs interrupts name p) (hneat : c.Neat)
    {fuel : Nat} {callback : Callback} {answer : Except Failure Unit}
    (hr : (Chain.behaviour act fuel callback self c).Answers self (answer, d)) :
    d.Performs interrupts name p := by
  obtain ⟨σ, σ', hr⟩ := hr
  cases callback with
  | init =>
    cases hr
    cases h with
    | ready attached => exact .ready true
    | running attached hs => exact .running true hs
    | ended hfin => exact .ended hfin
  | attach | remove =>
    cases hr
    exact h
  | finish | detach =>
    obtain ⟨σ₁, hd⟩ := shutDown_ok self c σ
    cases hd.symm.trans hr
    exact .ended rfl
  | message m =>
    cases h with
    | ready attached =>
      cases hr
      exact .ready attached
    | running attached hs =>
      rw [Chain.behaviour, run_notice_interrupts, run_notice_spot] at hr
      cases hr
      exact .running attached (hs.notice m)
    | ended hfin =>
      obtain ⟨-, rfl | ⟨-, rfl⟩⟩ := outcome_notice hr
      · exact .ended hfin
      · exact .ended hfin
  | update delta absolute =>
    rw [Chain.behaviour, step, run_bind, run_start] at hr
    rcases h.opening with ⟨attached, s, hs, ho⟩ | ⟨hfin, ho⟩
    · rw [ho] at hr
      exact performs_rounds fuel hs (hneat.opening ho).1 hr
    · rw [ho] at hr
      cases hr
      exact .ended hfin

/-- Whatever the host answers, a step that begins at a spot of a program whose loops suspend comes to its
end. By induction on the steps that the interpreter can make from there. -/
theorem exists_pace_ends (hc : s.Ceases act self absolute name) (h : s.Stands p)
    (hneat : Chain.Neat { s.chain name attached with interrupts }) (σ : Setting κ ω) :
    ∃ n, ∀ d σ', ((pace act self absolute n).run { s.chain name attached with interrupts }).run self σ ≠
      (.ok (.ok true, d), σ') := by
  induction hc generalizing σ with
  | intro s _ ih =>
    by_cases hgo : ∃ e σ₁, ((round act self absolute).run
        { s.chain name attached with interrupts }).run self σ = (.ok (.ok true, e), σ₁)
    · obtain ⟨e, σ₁, hround⟩ := hgo
      have hcleared : Triple self Neat (round act self absolute) Cleared fun _ => Neat :=
        triple_round_neat
      have hend := hcleared _ _ e hneat ⟨σ, σ₁, hround⟩
      rcases performs_round h hneat hround with ⟨-, hne⟩ | ⟨s', hs', rfl, hstep⟩
      · exact (hne rfl).elim
      · obtain ⟨n, hn⟩ := ih s' (hstep rfl) hs' hend.1 σ₁
        refine ⟨n + 1, fun d σ' hr => hn d σ' ?_⟩
        rwa [pace_of_round n hround] at hr
    · refine ⟨1, fun d σ' hr => hgo ?_⟩
      obtain ⟨e, σ₁, hround, -⟩ := exists_of_pace hr
      exact ⟨e, σ₁, hround⟩

omit [Named κ] in
theorem Chain.performs_direct (interrupts : List (HostFun ω Bool)) (name : String) (p : Program κ ω α) :
    (Chain.direct name interrupts p.commands).Performs interrupts name p := by
  have heq : Chain.direct name interrupts p.commands =
      { Chain.idle name false (bare p.commands) with interrupts } := foldl_append_eq _ _ _
  rw [heq]
  exact .ready false

theorem Chain.Performs.exists_ends {c : Chain κ ω α} (h : c.Performs interrupts name p) (hneat : c.Neat)
    (ht : p.Tame) (σ : Setting κ ω) :
    ∃ n, ∀ d σ', ((start >>= fun _ => pace act self absolute n).run c).run self σ ≠
      (.ok (.ok true, d), σ') := by
  simp only [run_bind, run_start]
  rcases h.opening with ⟨attached, s, hs, ho⟩ | ⟨-, ho⟩
  · have hceases : s.Ceases act self absolute name := hs.ceases ht
    rw [ho]
    exact exists_pace_ends hceases hs (hneat.opening ho).1 σ
  · rw [ho]
    refine ⟨0, fun d σ' hr => ?_⟩
    cases hr

end Rounds

section History

variable [Named κ] {act : α → Caller → Script κ ω (Except Failure Unit)}
  {interrupts : List (HostFun ω Bool)} {name : String} {p : Program κ ω α} {built c : Chain κ ω α}
  {ρ : NodeId → NodeId} {ids : List NodeId} {stale : Bool}

theorem Rests.performs (hb : built.Performs interrupts name p) (hneat : built.Neat)
    (h : Rests act built c) : c.Performs interrupts name p ∧ c.Neat := by
  induction h with
  | built => exact ⟨hb, hneat⟩
  | called fuel callback self _ hr ih => exact ⟨ih.1.behaviour ih.2 hr, neat_behaviour ih.2 hr⟩

theorem Rests.twin {twin : Chain κ ω α} (ht : Chain.Twin ρ ids stale twin built) (h : Rests act built c) :
    ∃ c' stale', Rests act twin c' ∧ Chain.Twin ρ ids stale' c' c := by
  induction h with
  | built => exact ⟨twin, stale, .built, ht⟩
  | called fuel callback self _ hr ih =>
    obtain ⟨c', stale', hrests, htwin⟩ := ih
    obtain ⟨σ, σ', hr⟩ := hr
    obtain ⟨⟨_, d'⟩, hrun, -, stale'', hd⟩ :=
      (matches_behaviour act htwin fuel callback self).exists_run hr
    exact ⟨d', stale'', hrests.called fuel callback self ⟨σ, σ', hrun⟩, hd⟩

theorem paces_of_twin {c c' d : Chain κ ω α} {self : Caller} {absolute : Seconds} {n : Nat}
    {σ σ' : Setting κ ω} (h : Chain.Twin ρ ids stale c' c)
    (hr : ((start >>= fun _ => pace act self absolute n).run c).run self σ = (.ok (.ok true, d), σ')) :
    ∃ d', ((start >>= fun _ => pace act self absolute n).run c').run self σ = (.ok (.ok true, d'), σ') := by
  simp only [run_bind, run_start] at hr ⊢
  cases ho : c'.opening with
  | error f =>
    rw [h.opening_error ho] at hr
    cases hr
  | ok r' =>
    obtain ⟨r, ho', hsame⟩ := h.opening ho
    rw [ho'] at hr
    have heven : Even ρ ids false (pace act self absolute n) := even_pace n
    simp only [Script.bind] at hr ⊢
    obtain ⟨⟨_, d'⟩, hrun, hanswer, -⟩ := (heven r' r hsame).exists_run hr
    cases hanswer with
    | ok heq => exact ⟨d', heq ▸ hrun⟩

/-- The step comes to its end within `n` commands: more fuel changes nothing, and the step returns unless a
function of the host breaks it off. -/
structure Chain.EndsWithin (act : α → Caller → Script κ ω (Except Failure Unit)) (self : Caller)
    (delta absolute : Seconds) (c : Chain κ ω α) (σ : Setting κ ω) (n : Nat) : Prop where
  stable : ∀ fuel, n ≤ fuel → (Chain.behaviour act fuel (.update delta absolute) self c).run self σ =
    (Chain.behaviour act n (.update delta absolute) self c).run self σ
  returns : ∀ crash σ',
    (Chain.behaviour act n (.update delta absolute) self c).run self σ = (.error crash, σ') →
      ∃ k d σ₁, ((start >>= fun _ => pace act self absolute k).run c).run self σ = (.ok (.ok true, d), σ₁) ∧
        d.Raises act self crash

theorem Lived.ends (h : Lived act c) {self : Caller} {delta absolute : Seconds} {σ : Setting κ ω} {n : Nat}
    (hn : ∀ d σ', ((start >>= fun _ => pace act self absolute n).run c).run self σ ≠
      (.ok (.ok true, d), σ')) : c.EndsWithin act self delta absolute σ n := by
  refine ⟨fun fuel hf => ?_, fun crash σ' hr => ?_⟩
  · rw [Chain.behaviour, Chain.behaviour, step, step, run_bind, run_bind, run_start]
    simp only [run_bind, run_start] at hn
    cases ho : c.opening with
    | error f => rfl
    | ok r =>
      rw [ho] at hn
      exact rounds_of_pace hn hf
  · obtain ⟨ids, hl⟩ := h.lists
    refine (crash_step hl h.neat h.anchored hr).resolve_left ?_
    rintro ⟨-, d, hpace⟩
    exact hn d σ' hpace

/-- No step hangs on a well-nested chain whose loops suspend unless they are certain to count down. At
whatever place a history of callbacks has left it, and whatever the host answers, the next step runs finitely
many commands. It returns, unless a function of the host breaks it off. -/
theorem halting_history (act : α → Caller → Script κ ω (Except Failure Unit)) {depth : Nat}
    (hb : Lived act built) (hi : built.Idle) (hn : Nested Command.opcode depth built.commands)
    (hf : ∀ command ∈ built.commands, command.reset = command)
    (ht : ∀ p : Program κ ω α, p.commands = built.commands → p.Tame) (h : Rests act built c)
    (self : Caller) (delta absolute : Seconds) (σ : Setting κ ω) :
    ∃ n, c.EndsWithin act self delta absolute σ n := by
  obtain ⟨p, hp⟩ := Program.exists_of_nested hn hf
  -- The chain that was given the same commands one after the other does the same.
  let twin := Chain.direct built.name built.interrupts built.commands
  have hdirect : Lived act twin := lived_direct _ _ _
  have hperforms : twin.Performs built.interrupts built.name p := by
    have hdone := performs_direct built.interrupts built.name p
    rwa [hp] at hdone
  obtain ⟨ids, hl⟩ := hdirect.lists
  obtain ⟨ids', hl'⟩ := hb.lists
  obtain ⟨hn, hint, -⟩ := (relisted_foldl { name := built.name, interrupts := built.interrupts }
    built.commands).same
  obtain ⟨ρ, htwin⟩ := exists_twin hl hl' (hdirect.blank (idle_direct _ _ _).started) (hb.blank hi.started)
    (idle_direct _ _ _) hi hn.symm hint.symm (commands_direct _ _ _).symm
  obtain ⟨c', stale, hrests, hsame⟩ := h.twin htwin
  obtain ⟨hc', hneat⟩ := hrests.performs hperforms hdirect.neat
  obtain ⟨n, hends⟩ := hc'.exists_ends hneat (ht p hp) σ
  refine ⟨n, (h.lived hb).ends fun d σ' hr => ?_⟩
  obtain ⟨d', hr'⟩ := paces_of_twin hsame hr
  exact hends d' σ' hr'

end History

/-- A loop that waits for a frame in each pass. -/
def blinking : List (Command Probe Unit Unit) :=
  [.beginWhile fun w => (.ok true, w), .waitFrames ⟨.value 0, none⟩, .endWhile]

theorem tame_blinking (p : Program Probe Unit Unit) (hp : p.commands = blinking) : p.Tame := by
  have hdone {q : Program Probe Unit Unit} (h : q.commands.length = 0) : q = .done := by
    rw [← Program.length_tokens] at h
    exact Program.eq_done_of_tokens (List.length_eq_zero_iff.mp h)
  cases p with
  | done => trivial
  | simple e next =>
    have hk := Errand.kind_command e.fresh
    rw [(List.cons.inj hp).1] at hk
    cases hk
  | doWhile holds body next =>
    have htail := (List.cons.inj hp).2
    cases body with
    | simple e rest =>
      obtain ⟨he, hrest⟩ := List.cons.inj htail
      have hlength := (List.length_append ..).symm.trans (congrArg List.length hrest)
      simp only [List.length_cons, List.length_nil] at hlength
      have hsuspends : e.suspends = true := by
        cases e with
        | waitForMembers quorum => cases quorum <;> cases he
        | waitForMessage key condition => rfl
        | waitFrames frames waited => rfl
        | _ => cases he
      rw [hdone (q := rest) (by omega), hdone (q := next) (by omega)]
      exact ⟨.inl hsuspends, trivial, trivial⟩
    | _ => cases htail
  | _ => cases hp

/-- The second step of such a loop begins at the wait. -/
theorem halting_history_blinking :
    let act : Unit → Caller → Script Probe Unit (Except Failure Unit) := fun _ _ => .done (.ok ())
    let σ : Setting Probe Unit := ⟨((({} : Scene Probe).addEntity "host").2.addComponent ⟨1⟩ {}).2, ()⟩
    ∃ c, Rests act (Chain.direct "blink" [] blinking) c ∧ c.current = some 1 ∧
      ∃ n, c.EndsWithin act ⟨⟨1⟩, ⟨1⟩⟩ 1 1 σ n := by
  intro act σ
  have hrests : Rests act (Chain.direct "blink" [] blinking) _ :=
    Rests.built.called 9 (.update 1 0) ⟨⟨1⟩, ⟨1⟩⟩ ⟨σ, _, rfl⟩
  refine ⟨_, hrests, rfl, ?_⟩
  have hb : Lived act (Chain.direct "blink" [] blinking) := lived_direct _ _ _
  have hcommands : (Chain.direct "blink" [] blinking).commands = blinking := commands_direct _ _ _
  have hbody : Nested Command.opcode 0 [(.waitFrames ⟨.value 0, none⟩ : Command Probe Unit Unit)] :=
    .plain rfl .nil
  have hnested : Nested Command.opcode 1 blinking := .loop rfl hbody .nil
  have hfresh : ∀ command ∈ blinking, command.reset = command := by
    simp [blinking, Command.reset, Lazy.reset]
  rw [← hcommands] at hnested hfresh
  exact halting_history act hb (idle_direct _ _ _) hnested hfresh
    (fun p hp => tame_blinking p (hp.trans hcommands)) hrests _ _ _ _

end FrameChain
