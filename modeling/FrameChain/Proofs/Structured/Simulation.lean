import FrameChain.Proofs.Structured.Image
import FrameChain.Proofs.Structured.Rounds

set_option autoImplicit false

namespace FrameChain

variable {κ ω α τ : Type}

def Pace.answered (name : String) (attached : Bool) (here : Chain κ ω α) :
    Pace κ ω α → Script κ ω (Except Failure Bool × Chain κ ω α)
  | on s => .done (.ok true, s.chain name attached)
  | waiting s => .done (.ok false, s.chain name attached)
  | failed f s => .done (.error f, s.chain name attached)
  | ended => .ask .finish fun _ => .done (.ok false, here.stopped)

theorem Count.opener_of (times : Param ω UInt32) (n : UInt32) :
    ((Count.of n).opener times : Command κ ω α) = .beginRepeat ⟨times, some n⟩ (n == 0) := by
  by_cases hn : n = 0
  · subst hn
    rfl
  · rw [Count.of, if_neg hn, beq_false_of_ne hn]
    rfl

theorem Lazy.resolve_fresh (param : Param ω τ) :
    (⟨param, none⟩ : Lazy ω τ).resolve =
      param.sample.bind fun a => (.done (a, ⟨param, some a⟩) : Script κ ω (τ × Lazy ω τ)) := by
  cases param <;> rfl

namespace ChainRun

structure Follows (name : String) (attached : Bool)
    (act : α → Caller → Script κ ω (Except Failure Unit)) (caller : Caller) (absolute : Seconds)
    (s : Spot κ ω α) (step : Script κ ω (Pace κ ω α)) : Prop where
  run_turn : ∀ pos, (s.chain name attached).current = some pos →
    (turn act caller absolute pos).run (s.chain name attached) =
      step.bind (Pace.answered name attached (s.chain name attached))

variable (name : String) (attached : Bool) (act : α → Caller → Script κ ω (Except Failure Unit))
  (self : Caller) (absolute : Seconds) (before : Program κ ω α) (levels : List (Level κ ω α))

theorem follows_visit (e : Errand κ ω α) (rest : Program κ ω α) :
    Follows name attached act self absolute ⟨before, .within e rest, levels⟩
      (Spot.visit act self absolute name before levels e rest) := by
  refine ⟨fun pos hpos => ?_⟩
  obtain rfl := Chain.eq_of_current hpos
  let l := lefts (before.tokens.length + (rest.tokens.length + 1)) levels ++ before.tokens
  let r := rest.tokens ++ rights levels
  let scopes := openers (before.tokens.length + (rest.tokens.length + 1)) levels
  have hlaid (command : Command κ ω α) (scratch : Scratch) :
      placed (Chain.laid name attached (l ++ ⟨e.command, none⟩ :: r) l.length scopes e.scratch)
        l.length command scratch =
      Chain.laid name attached (l ++ ⟨command, none⟩ :: r) l.length scopes scratch :=
    congrArg (fun c : Chain κ ω α => { c with scratch })
      (laid_modify name attached l r ⟨e.command, none⟩ l.length scopes e.scratch fun _ => command)
  change (turn act self absolute l.length).run
    (Chain.laid name attached (l ++ ⟨e.command, none⟩ :: r) l.length scopes e.scratch) = _
  rw [turn, run_bind, run_dispatch_of_errand (by rw [Chain.laid, getElem?_arena, getElem?_mid]; rfl)
    act self absolute rfl rfl]
  simp only [Spot.visit, Script.bind_eq, Script.bind_assoc, visited, hlaid]
  congr 1
  funext v
  cases v with
  | finished e' =>
    have hleft : left (⟨e'.command, none⟩ : Token κ ω α) = ⟨e'.fresh.command, none⟩ := by
      rw [left, if_neg (Errand.opcode_command_ne e'), Errand.command_fresh]
    have hn : before.tokens.length + ((Program.simple e' .done).tokens.length + rest.tokens.length) =
        before.tokens.length + (rest.tokens.length + 1) := by
      rw [Nat.add_comm rest.tokens.length]
      rfl
    change (settle l.length .advance).run (Chain.laid name attached (l ++ ⟨e'.command, none⟩ :: r)
      l.length scopes {}) = _
    rw [run_settle_advance, hleft]
    change _ = Script.done (Except.ok true, Spot.chain name attached _)
    rw [Spot.chain_past name attached before (.simple e' .done) rest levels hn]
    rfl
  | waiting e' => rfl
  | failed f e' => rfl

/-! ## Into a block -/

section Block

variable (body rest : Program κ ω α)

theorem answered_on {here c : Chain κ ω α} {s : Spot κ ω α} (h : s.chain name attached = c) :
    Script.done (Except.ok true, c) = (Pace.on s).answered name attached here := h ▸ rfl

theorem follows_repeatTimes (times : Param ω UInt32) :
    Follows name attached act self absolute
      ⟨before, .entering (.repeatTimes times body rest), levels⟩
      (Spot.begin act self absolute name before levels (.repeatTimes times body rest)) := by
  refine ⟨fun pos hpos => ?_⟩
  have hchain := Spot.chain_head_pair name attached ⟨before, .repeatTimes times .endless, rest⟩ body
    levels (.entering (.repeatTimes times body rest)) rfl rfl rfl
  rw [hchain] at hpos ⊢
  obtain rfl := Chain.eq_of_current hpos
  refine (run_turn_beginRepeat ..).trans ?_
  simp only [Lazy.resolve_fresh, Spot.begin, Script.bind_eq, Script.bind_assoc]
  congr 1
  funext n
  refine answered_on name attached ?_
  rw [Spot.chain_entered name attached ⟨before, .repeatTimes times (.of n), rest⟩ body levels]
  simp only [Block.opening, Count.opener_of]
  rfl

theorem follows_returning (times : Param ω UInt32) (count : Count) :
    Follows name attached act self absolute ⟨before, .returning times count body rest, levels⟩
      (.done (Spot.enter before levels (.repeatTimes times count) body rest)) := by
  let f : Level κ ω α := ⟨before, .repeatTimes times count, rest⟩
  refine ⟨fun pos hpos => ?_⟩
  have hchain := Spot.chain_head_pair name attached f body levels
    (.returning times count body rest) rfl rfl rfl
  rw [hchain] at hpos ⊢
  obtain rfl := Chain.eq_of_current hpos
  have hentered := Spot.chain_entered name attached f body levels
  cases count with
  | endless => exact (run_turn_beginRepeat ..).trans (answered_on name attached hentered)
  | left k => exact (run_turn_beginRepeat ..).trans (answered_on name attached hentered)

theorem follows_doWhile (holds : HostFun ω Bool) :
    Follows name attached act self absolute ⟨before, .entering (.doWhile holds body rest), levels⟩
      (Spot.begin act self absolute name before levels (.doWhile holds body rest)) := by
  let f : Level κ ω α := ⟨before, .doWhile holds, rest⟩
  refine ⟨fun pos hpos => ?_⟩
  have hchain := Spot.chain_head_pair name attached f body levels
    (.entering (.doWhile holds body rest)) rfl rfl rfl
  rw [hchain] at hpos ⊢
  obtain rfl := Chain.eq_of_current hpos
  exact (run_turn_beginWhile ..).trans
    (answered_on name attached (Spot.chain_entered name attached f body levels))

theorem answered_pause (here : Chain κ ω α) (seconds : Param ω Seconds) (limit since : Seconds) :
    let f : Level κ ω α := ⟨before, .interval seconds, rest⟩
    let l := f.lead body.tokens.length levels
    let r := body.tokens ++ ⟨.endInterval, none⟩ :: f.trail levels
    let scopes := f.scopes body.tokens.length levels
    .done (if absolute - since ≥ limit then
        (.ok true, Chain.laid name attached (l ++ ⟨.beginInterval ⟨seconds, none⟩, none⟩ :: r)
          (l.length + 1) (l.length :: scopes) {})
      else
        (.ok false, Chain.laid name attached
          (l ++ ⟨.beginInterval ⟨seconds, some limit⟩, none⟩ :: r) l.length scopes
          { waitStart := some since })) =
      (Spot.pause absolute before levels seconds limit since body rest).answered name attached here := by
  intro f l r scopes
  by_cases h : absolute - since ≥ limit
  · rw [Spot.pause, if_pos h, if_pos h]
    exact answered_on name attached (Spot.chain_entered name attached f body levels)
  · rw [Spot.pause, if_neg h, if_neg h]
    exact congrArg (fun c => Script.done (Except.ok false, c))
      (Spot.chain_head_pair name attached f body levels
        (.pausing seconds limit since body rest) rfl rfl rfl).symm

theorem follows_pausing (seconds : Param ω Seconds) (limit since : Seconds) :
    Follows name attached act self absolute ⟨before, .pausing seconds limit since body rest, levels⟩
      (.done (Spot.pause absolute before levels seconds limit since body rest)) := by
  refine ⟨fun pos hpos => ?_⟩
  have hchain := Spot.chain_head_pair name attached ⟨before, .interval seconds, rest⟩ body levels
    (.pausing seconds limit since body rest) rfl rfl rfl
  rw [hchain] at hpos ⊢
  obtain rfl := Chain.eq_of_current hpos
  exact (run_turn_beginInterval ..).trans (answered_pause ..)

theorem follows_interval (seconds : Param ω Seconds) :
    Follows name attached act self absolute ⟨before, .entering (.interval seconds body rest), levels⟩
      (Spot.begin act self absolute name before levels (.interval seconds body rest)) := by
  refine ⟨fun pos hpos => ?_⟩
  have hchain := Spot.chain_head_pair name attached ⟨before, .interval seconds, rest⟩ body levels
    (.entering (.interval seconds body rest)) rfl rfl rfl
  rw [hchain] at hpos ⊢
  obtain rfl := Chain.eq_of_current hpos
  refine (run_turn_beginInterval _ _ _ _ _ _ _ _ _ none).trans ?_
  simp only [Lazy.resolve_fresh, Spot.begin, Script.bind_eq, Script.bind_assoc]
  congr 1
  funext limit
  exact answered_pause ..

theorem follows_ifThen (holds : HostFun ω Bool) (yes : Program κ ω α) :
    Follows name attached act self absolute ⟨before, .entering (.ifThen holds yes rest), levels⟩
      (Spot.begin act self absolute name before levels (.ifThen holds yes rest)) := by
  let f : Level κ ω α := ⟨before, .ifThen holds, rest⟩
  refine ⟨fun pos hpos => ?_⟩
  have hchain := Spot.chain_head_pair name attached f yes levels
    (.entering (.ifThen holds yes rest)) rfl rfl rfl
  rw [hchain] at hpos ⊢
  obtain rfl := Chain.eq_of_current hpos
  refine (run_turn_beginIf ..).trans ?_
  simp only [Spot.begin, Script.bind_eq, Script.bind_assoc]
  congr 1
  funext answer
  cases answer with
  | true => exact answered_on name attached (Spot.chain_entered name attached f yes levels)
  | false => exact answered_on name attached (Spot.chain_behind_pair name attached f yes levels rfl rfl)

theorem follows_ifElse (holds : HostFun ω Bool) (yes no : Program κ ω α) :
    Follows name attached act self absolute ⟨before, .entering (.ifElse holds yes no rest), levels⟩
      (Spot.begin act self absolute name before levels (.ifElse holds yes no rest)) := by
  let f : Level κ ω α := ⟨before, .ifYes holds no, rest⟩
  let g : Level κ ω α := ⟨before, .ifNo holds yes, rest⟩
  -- Both branches stand in the same surroundings.
  have hsize : g.size no.tokens.length = f.size yes.tokens.length :=
    (g.size_eq no).trans (f.size_eq yes).symm
  have hlead : g.lead no.tokens.length levels = f.lead yes.tokens.length levels := by
    rw [Level.lead, hsize]
    rfl
  have hscopes : g.inner no.tokens.length levels = f.scopes yes.tokens.length levels := by
    change g.scopes no.tokens.length levels = _
    rw [Level.scopes, hsize]
    rfl
  refine ⟨fun pos hpos => ?_⟩
  have hchain : Spot.chain name attached ⟨before, .entering (.ifElse holds yes no rest), levels⟩ = _ :=
    Spot.chain_before name attached f yes levels
  rw [Block.closing_ifYes] at hchain
  rw [hchain] at hpos ⊢
  obtain rfl := Chain.eq_of_current hpos
  refine (run_turn_beginIf ..).trans ?_
  simp only [Spot.begin, Script.bind_eq, Script.bind_assoc]
  congr 1
  funext answer
  cases answer with
  | true =>
    have hentered := Spot.chain_entered name attached f yes levels
    rw [Block.closing_ifYes] at hentered
    exact answered_on name attached hentered
  | false =>
    have hentered := Spot.chain_entered name attached g no levels
    rw [Block.opening_ifNo, Block.length_opening_ifNo, hlead, hscopes] at hentered
    exact answered_on name attached hentered

end Block

/-! ## Out of a block -/

section Block

variable (body rest : Program κ ω α)

theorem follows_endRepeat (times : Param ω UInt32) (count : Count) :
    Follows name attached act self absolute
      ⟨body, .entering .done, ⟨before, .repeatTimes times count, rest⟩ :: levels⟩
      (Spot.close levels body ⟨before, .repeatTimes times count, rest⟩) := by
  let f : Level κ ω α := ⟨before, .repeatTimes times count, rest⟩
  have hreturn (c : Count) := Spot.chain_head_pair name attached f body levels
    (.returning times c body rest) rfl rfl rfl
  refine ⟨fun pos hpos => ?_⟩
  rw [Spot.chain_closing_pair name attached f body levels rfl rfl] at hpos ⊢
  obtain rfl := Chain.eq_of_current hpos
  cases count with
  | endless =>
    refine (run_turn_endRepeat _ _ _ _ _ _ _ _ _ _ 0 rfl _).trans ?_
    exact answered_on name attached (hreturn .endless)
  | left k =>
    refine (run_turn_endRepeat _ _ _ _ _ _ _ _ _ _ k rfl _).trans ?_
    by_cases hk : 1 < k
    · simp only [Spot.close, Count.next, if_pos hk]
      exact answered_on name attached (hreturn (.left (k - 1)))
    · simp only [Spot.close, Count.next, if_neg hk]
      exact answered_on name attached (Spot.chain_behind_pair name attached f body levels rfl rfl)

theorem follows_endWhile (holds : HostFun ω Bool) :
    Follows name attached act self absolute
      ⟨body, .entering .done, ⟨before, .doWhile holds, rest⟩ :: levels⟩
      (Spot.close levels body ⟨before, .doWhile holds, rest⟩) := by
  let f : Level κ ω α := ⟨before, .doWhile holds, rest⟩
  refine ⟨fun pos hpos => ?_⟩
  rw [Spot.chain_closing_pair name attached f body levels rfl rfl] at hpos ⊢
  obtain rfl := Chain.eq_of_current hpos
  refine (run_turn_endWhile ..).trans ?_
  simp only [Spot.close, Script.bind_eq, Script.bind_assoc]
  congr 1
  funext again
  cases again with
  | true =>
    exact answered_on name attached (Spot.chain_head_pair name attached f body levels
      (.entering (.doWhile holds body rest)) rfl rfl rfl)
  | false =>
    exact answered_on name attached (Spot.chain_behind_pair name attached f body levels rfl rfl)

theorem follows_endInterval (seconds : Param ω Seconds) :
    Follows name attached act self absolute
      ⟨body, .entering .done, ⟨before, .interval seconds, rest⟩ :: levels⟩
      (Spot.close levels body ⟨before, .interval seconds, rest⟩) := by
  let f : Level κ ω α := ⟨before, .interval seconds, rest⟩
  refine ⟨fun pos hpos => ?_⟩
  rw [Spot.chain_closing_pair name attached f body levels rfl rfl] at hpos ⊢
  obtain rfl := Chain.eq_of_current hpos
  exact (run_turn_endInterval ..).trans (answered_on name attached
    (Spot.chain_head_pair name attached f body levels (.entering (.interval seconds body rest))
      rfl rfl rfl))

theorem follows_endIf (f : Level κ ω α) (hk : f.block.closing = [⟨.endIf, none⟩])
    (hl : f.block.isLoop = false) (ho : ∀ n, f.block.rested n = f.block.opening n) :
    Follows name attached act self absolute ⟨body, .entering .done, f :: levels⟩
      (.done (Spot.exit levels body f)) := by
  have hinner : f.inner body.tokens.length levels = f.scopes body.tokens.length levels := by
    rw [Level.inner, hl]
    rfl
  have hbehind := Spot.chain_behind name attached f body levels
  rw [hk, ho] at hbehind
  refine ⟨fun pos hpos => ?_⟩
  rw [Spot.chain_closing name attached f body levels, hk, hinner] at hpos ⊢
  obtain rfl := Chain.eq_of_current hpos
  exact (run_turn_endIf ..).trans (answered_on name attached hbehind)

theorem follows_otherwise (no : Program κ ω α) (holds : HostFun ω Bool) :
    Follows name attached act self absolute
      ⟨body, .entering .done, ⟨before, .ifYes holds no, rest⟩ :: levels⟩
      (.done (Spot.exit levels body ⟨before, .ifYes holds no, rest⟩)) := by
  let f : Level κ ω α := ⟨before, .ifYes holds no, rest⟩
  have hbehind := Spot.chain_behind name attached f body levels
  rw [Block.closing_ifYes, Block.length_closing_ifYes] at hbehind
  refine ⟨fun pos hpos => ?_⟩
  rw [Spot.chain_closing name attached f body levels, Block.closing_ifYes] at hpos ⊢
  obtain rfl := Chain.eq_of_current hpos
  exact (run_turn_otherwise ..).trans (answered_on name attached hbehind)

theorem follows_close (f : Level κ ω α) :
    Follows name attached act self absolute ⟨body, .entering .done, f :: levels⟩
      (Spot.close levels body f) := by
  obtain ⟨before, block, rest⟩ := f
  cases block with
  | repeatTimes times count => exact follows_endRepeat ..
  | doWhile holds => exact follows_endWhile ..
  | interval seconds => exact follows_endInterval ..
  | ifThen holds => exact follows_endIf _ _ _ _ _ _ _ _ rfl rfl fun _ => rfl
  | ifYes holds no => exact follows_otherwise ..
  | ifNo holds yes => exact follows_endIf _ _ _ _ _ _ _ _ rfl rfl fun _ => rfl

end Block

theorem follows_begin (p : Program κ ω α) :
    Follows name attached act self absolute ⟨before, .entering p, levels⟩
      (Spot.begin act self absolute name before levels p) := by
  cases p with
  | done =>
    cases levels with
    | nil =>
      -- Behind its last command the chain has no cursor.
      refine ⟨fun pos hpos => ?_⟩
      have hlt : _ < (_ ++ []).length := Chain.lt_of_current hpos
      rw [List.append_nil] at hlt
      exact absurd hlt (Nat.lt_irrefl _)
    | cons f outer => exact follows_close ..
  | simple e rest =>
    have hfresh : Spot.chain name attached ⟨before, .within e.fresh rest, levels⟩ =
        Spot.chain name attached ⟨before, .entering (.simple e rest), levels⟩ := by
      simp only [Spot.chain, Spot.left, Spot.right, Spot.size, Focus.tokens, Focus.scratch,
        Errand.scratch_fresh, Program.tokens]
    refine ⟨fun pos hpos => ?_⟩
    rw [← hfresh] at hpos ⊢
    exact (follows_visit ..).run_turn pos hpos
  | repeatTimes times body rest => exact follows_repeatTimes ..
  | doWhile holds body rest => exact follows_doWhile ..
  | interval seconds body rest => exact follows_interval ..
  | ifThen holds yes rest => exact follows_ifThen ..
  | ifElse holds yes no rest => exact follows_ifElse ..

theorem follows_step (s : Spot κ ω α) :
    Follows name attached act self absolute s (s.step act self absolute name) := by
  obtain ⟨before, focus, levels⟩ := s
  cases focus with
  | entering p => exact follows_begin ..
  | within e rest => exact follows_visit ..
  | returning times count body rest => exact follows_returning ..
  | pausing seconds limit since body rest => exact follows_pausing ..

theorem ended_of_current_none (s : Spot κ ω α) (h : (s.chain name attached).current = none) :
    ∃ p, s = ⟨p, .entering .done, []⟩ := by
  have hright : s.right = [] := by
    have hle := Chain.le_of_current h
    rw [List.length_append] at hle
    exact List.length_eq_zero_iff.mp (by omega)
  obtain ⟨htokens, hrights⟩ := List.append_eq_nil_iff.mp hright
  obtain ⟨before, focus, levels⟩ := s
  cases levels with
  | cons f outer => exact absurd hrights (rights_ne_nil f outer)
  | nil =>
    cases focus with
    | entering p => exact ⟨before, by rw [Program.eq_done_of_tokens htokens]⟩
    | within e rest => cases htokens
    | returning times count body rest => cases htokens
    | pausing seconds limit since body rest => cases htokens

/-- A round of the chain at a spot is a look at the scene and a step from the spot. -/
theorem run_round_spot (s : Spot κ ω α) :
    (round act self absolute).run (s.chain name attached) =
      .look fun scene =>
        if scene.isDone self.component then .done (.ok false, s.chain name attached)
        else (s.step act self absolute name).bind
          (Pace.answered name attached (s.chain name attached)) := by
  cases hcur : (s.chain name attached).current with
  | some pos =>
    have hround := run_round name attached (openers s.size s.levels) act self absolute s.focus.scratch
      (Chain.lt_of_current hcur)
    obtain rfl : pos = s.left.length := Chain.eq_of_current hcur
    refine hround.trans (congrArg Script.look (funext fun scene => ?_))
    split
    · rfl
    · exact (follows_step ..).run_turn _ hcur
  | none =>
    obtain ⟨p, rfl⟩ := ended_of_current_none name attached s hcur
    have hc : Spot.chain name attached ⟨p, .entering .done, []⟩ =
        Chain.laid name attached p.tokens p.tokens.length [] {} := by
      simp only [Spot.chain, Spot.left, Spot.right, lefts, rights, openers, Focus.tokens,
        Program.tokens, Focus.scratch, List.nil_append, List.append_nil]
    rw [hc, run_round_end]
    rfl

/-- The end of a run of steps as the chain has it. -/
def runAnswer (name : String) (attached : Bool) :
    Except Failure Bool × Spot κ ω α → Except Failure Unit × Chain κ ω α
  | (.ok true, s) => (.ok (), (s.chain name attached).stopped)
  | (.ok false, s) => (.ok (), s.chain name attached)
  | (.error f, s) => (.error f, s.chain name attached)

theorem run_rounds_spot (fuel : Nat) (s : Spot κ ω α) :
    (rounds act self absolute fuel).run (s.chain name attached) =
      (s.run act self absolute name fuel).bind fun answer =>
        .done (runAnswer name attached answer) := by
  induction fuel generalizing s with
  | zero => rfl
  | succ fuel ih =>
    simp only [rounds, run_bind, run_round_spot, Script.bind, Spot.run, Script.bind_eq, Script.scene]
    congr 1
    funext scene
    cases scene.isDone self.component with
    | true => rfl
    | false =>
      simp only [Bool.false_eq_true, if_false, Script.bind_assoc]
      congr 1
      funext pace
      cases pace with
      | on s => exact ih s
      | waiting s => rfl
      | failed f s => rfl
      | ended => rfl

end ChainRun

end FrameChain
