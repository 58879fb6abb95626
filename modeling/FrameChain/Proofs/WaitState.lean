import FrameChain.Proofs.Chain.Neat
import FrameChain.Proofs.History

set_option autoImplicit false

namespace FrameChain

open Chain ChainRun

variable {κ ω α : Type}

structure Scratch.Fits (s : Scratch) (command? : Option (Command κ ω α)) : Prop where
  start : s.waitStart ≠ none →
    ∃ seconds, command? = some (.waitTime seconds) ∨ command? = some (.beginInterval seconds)
  frames : s.framesWaited ≠ none → ∃ frames, command? = some (.waitFrames frames)
  message : s.messageKey ≠ none ∨ s.arrived = true → ∃ key, s.messageKey = some key ∧
    (command? = some (.waitForMessage key) ∨
      ∃ condition, command? = some (.waitForMessageWhere key condition))
  members : s.awaited ≠ none →
    ∃ set, command? = some (.waitForAll set) ∨ command? = some (.waitForFirst set)

theorem fits_empty (command? : Option (Command κ ω α)) : ({} : Scratch).Fits command? where
  start h := absurd rfl h
  frames h := absurd rfl h
  message h := h.elim (absurd rfl) nofun
  members h := absurd rfl h

theorem Memo.Suits.fits {command : Command κ ω α} {s : Scratch} (h : command.note.memo.Suits s) :
    s.Fits (some command) := by
  generalize hm : command.note.memo = memo at h
  cases h with
  | empty => exact fits_empty _
  | start since =>
    refine ⟨fun _ => ?_, (absurd rfl ·), fun h => h.elim (absurd rfl) nofun, (absurd rfl ·)⟩
    cases command with
    | waitTime seconds => exact ⟨seconds, .inl rfl⟩
    | beginInterval seconds => exact ⟨seconds, .inr rfl⟩
    | _ => cases hm
  | frames waited =>
    refine ⟨(absurd rfl ·), fun _ => ?_, fun h => h.elim (absurd rfl) nofun, (absurd rfl ·)⟩
    cases command with
    | waitFrames frames => exact ⟨frames, rfl⟩
    | _ => cases hm
  | message key arrived =>
    refine ⟨(absurd rfl ·), (absurd rfl ·), fun _ => ⟨key, rfl, ?_⟩, (absurd rfl ·)⟩
    cases command with
    | waitForMessage key =>
      cases hm
      exact .inl rfl
    | waitForMessageWhere key condition =>
      cases hm
      exact .inr ⟨condition, rfl⟩
    | _ => cases hm
  | members ids =>
    refine ⟨(absurd rfl ·), (absurd rfl ·), fun h => h.elim (absurd rfl) nofun, fun _ => ?_⟩
    cases command with
    | waitForAll set => exact ⟨set, .inl rfl⟩
    | waitForFirst set => exact ⟨set, .inr rfl⟩
    | _ => cases hm

namespace Chain

/-- The record of a chain fits its cursor, and a chain that has finished has kept nothing. -/
structure Orderly (c : Chain κ ω α) : Prop where
  fits : c.finished = false → c.scratch.Fits c.currentCommand?
  ended : c.finished = true → c.scratch = {} ∧ c.scopes = {} ∧ c.current = none

theorem Neat.orderly {c : Chain κ ω α} (h : c.Neat) : c.Orderly where
  fits _ := by
    have hs := h.suits
    cases hcur : c.current with
    | none =>
      rw [h.scratch hcur]
      exact fits_empty _
    | some id =>
      cases hn : c.nodes[id]? with
      | none =>
        rw [memo, hcur, Option.bind_some, memo?, note?, hn] at hs
        rw [hs.nothing]
        exact fits_empty _
      | some here =>
        rw [memo_of_node hcur hn] at hs
        rw [currentCommand?, hcur, Option.bind_some, hn, Option.map_some]
        exact hs.fits
  ended hf := ⟨h.scratch (h.ended hf).1, (h.ended hf).2, (h.ended hf).1⟩

end Chain

/-- How long the cursor has been where it is. -/
structure Stay where
  /-- The time of the step in which the cursor came there. -/
  arrived : Seconds
  /-- What the duration of the command came to, once a round has asked for it. -/
  sampled : Option Seconds := none

def Chain.duration? (c : Chain κ ω α) (w : ω) : Option Seconds :=
  (c.currentCommand?.bind Command.timer?).bind fun timer => (timer.1.reset.value w).1.toOption

section Clocked

variable [Named κ]

/-- The stay after a round at this chain. The first round that is not stopped asks for the duration. -/
def Stay.visited (stay : Stay) (caller : Caller) (c : Chain κ ω α) (σ : Setting κ ω) : Stay :=
  if σ.scene.isDone caller.component then stay
  else { stay with sampled := stay.sampled <|> c.duration? (checked c σ).world }

/-- The moments of a chain with its setting, the time of the step if the moment is inside of one, and the
stay of the cursor. Between callbacks anything may happen, but whoever is done stays so. -/
inductive Clocked (act : α → Caller → Script κ ω (Except Failure Unit)) (caller : Caller)
    (built : Chain κ ω α) : Chain κ ω α → Setting κ ω → Option Seconds → Stay → Prop
  | built (σ : Setting κ ω) (stay : Stay) : Clocked act caller built built σ none stay
  | meanwhile {c : Chain κ ω α} {σ σ' : Setting κ ω} {stay : Stay}
      (h : Clocked act caller built c σ none stay)
      (hdone : σ.scene.isDone caller.component = true → σ'.scene.isDone caller.component = true) :
      Clocked act caller built c σ' none stay
  | called {c c' : Chain κ ω α} {σ σ' : Setting κ ω} {stay : Stay} (fuel : Nat) (callback : Callback)
      {answer : Except Failure Unit} (h : Clocked act caller built c σ none stay)
      (hc : ∀ delta absolute, callback ≠ .update delta absolute)
      (hr : (Chain.behaviour act fuel callback caller c).run caller σ = (.ok (answer, c'), σ')) :
      Clocked act caller built c' σ' none stay
  | refused {c c' : Chain κ ω α} {σ σ' : Setting κ ω} {stay : Stay} {f : Failure}
      (h : Clocked act caller built c σ none stay)
      (hr : ((start : ChainRun κ ω α Unit).run c).run caller σ = (.ok (.error f, c'), σ')) :
      Clocked act caller built c' σ' none stay
  | begun {c c' : Chain κ ω α} {σ σ' : Setting κ ω} {stay : Stay} (absolute : Seconds)
      (h : Clocked act caller built c σ none stay)
      (hr : ((start : ChainRun κ ω α Unit).run c).run caller σ = (.ok (.ok (), c'), σ')) :
      Clocked act caller built c' σ' (some absolute) (if c.started then stay else { arrived := absolute })
  | onward {c c' : Chain κ ω α} {σ σ' : Setting κ ω} {stay : Stay} {absolute : Seconds}
      (h : Clocked act caller built c σ (some absolute) stay)
      (hr : ((round act caller absolute).run c).run caller σ = (.ok (.ok true, c'), σ')) :
      Clocked act caller built c' σ' (some absolute) { arrived := absolute }
  | rested {c c' : Chain κ ω α} {σ σ' : Setting κ ω} {stay : Stay} {absolute : Seconds}
      {answer : Except Failure Bool} (h : Clocked act caller built c σ (some absolute) stay)
      (hr : ((round act caller absolute).run c).run caller σ = (.ok (answer, c'), σ'))
      (hne : answer ≠ .ok true) : Clocked act caller built c' σ' none (stay.visited caller c σ)

variable {act : α → Caller → Script κ ω (Except Failure Unit)} {caller : Caller}
  {built c c' : Chain κ ω α} {σ σ' : Setting κ ω} {now : Option Seconds} {stay : Stay}
  {absolute : Seconds}

theorem Clocked.pace {n : Nat} (h : Clocked act caller built c σ (some absolute) stay)
    (hr : ((pace act caller absolute n).run c).run caller σ = (.ok (.ok true, c'), σ')) :
    ∃ stay', Clocked act caller built c' σ' (some absolute) stay' := by
  induction n generalizing c σ stay with
  | zero =>
    cases hr
    exact ⟨stay, h⟩
  | succ n ih =>
    obtain ⟨d, σ₁, hround, hr⟩ := exists_of_pace hr
    exact ih (h.onward hround) hr

theorem Clocked.update {fuel : Nat} {delta : Seconds} {answer : Except Failure Unit}
    (h : Clocked act caller built c σ none stay)
    (hr : (Chain.behaviour act fuel (.update delta absolute) caller c).run caller σ =
      (.ok (answer, c'), σ')) : ∃ stay', Clocked act caller built c' σ' none stay' := by
  obtain ⟨f, hstart⟩ | ⟨d, σ₁, n, base, σ₂, last, hstart, hpace, hlast, hne⟩ := exists_of_update hr
  · exact ⟨stay, h.refused hstart⟩
  · obtain ⟨stay', h'⟩ := (h.begun absolute hstart).pace hpace
    exact ⟨_, h'.rested hlast hne⟩

end Clocked

namespace Chain

variable {c d : Chain κ ω α} {id : NodeId} {here : Node κ ω α} {seconds : Lazy ω Seconds}
  {passes : Seconds → Seconds → Bool}

theorem Command.note_of_timer {command : Command κ ω α} (ht : command.timer? = some (seconds, passes)) :
    command.note = ⟨.start, seconds.cached⟩ := by
  cases command with
  | waitTime | beginInterval =>
    cases ht
    rfl
  | _ => cases ht

theorem note?_sampling (hn : c.nodes[id]? = some here)
    (ht : here.command.timer? = some (seconds, passes)) (limit : Seconds) (i : NodeId) :
    (c.sampling id here.command limit).note? i =
      if id = i then some ⟨.start, some limit⟩ else c.note? i := by
  have hnote : (here.command.sampling limit).note = ⟨.start, some limit⟩ := by
    cases hcmd : here.command with
    | waitTime | beginInterval => rfl
    | _ =>
      rw [hcmd] at ht
      cases ht
  rw [sampling, note?_setCommand]
  split
  · rename_i hi
    rw [← hi, note?_of_node hn, Option.map_some, hnote]
  · rfl

/-- What a chain remembers of the stay of its cursor. Either it has not looked at a wait for a time since
the cursor came, because the step has not come to it yet or because its component was stopped; or it knows
when the cursor came and the duration that it was given then. No other command keeps a duration. -/
inductive Timing (c : Chain κ ω α) (caller : Caller) (σ : Setting κ ω) (now : Option Seconds)
    (stay : Stay) : Prop
  | ahead (fresh : ∀ id, c.sample? id = none) (idle : c.scratch.waitStart = none)
      (debut : c.memo = .start → stay.sampled = none ∧
        (σ.scene.isDone caller.component = true ∨ now = some stay.arrived))
  | amid {id : NodeId} {limit : Seconds} (cursor : c.current = some id)
      (note : c.note? id = some ⟨.start, some limit⟩) (others : ∀ i, i ≠ id → c.sample? i = none)
      (since : c.scratch.waitStart = some stay.arrived) (sampled : stay.sampled = some limit)

variable {caller : Caller} {σ σ' : Setting κ ω} {now : Option Seconds} {stay : Stay}

theorem Timing.others (h : c.Timing caller σ now stay) (hcur : c.current = some id) (i : NodeId)
    (hi : i ≠ id) : c.sample? i = none := by
  cases h with
  | ahead fresh => exact fresh i
  | amid cursor _ others =>
    cases cursor.symm.trans hcur
    exact others i hi

theorem Timing.of_memo (h : c.Timing caller σ now stay) (hm : c.memo ≠ .start) :
    (∀ id, c.sample? id = none) ∧ c.scratch.waitStart = none := by
  cases h with
  | ahead fresh idle => exact ⟨fresh, idle⟩
  | amid cursor note =>
    refine absurd ?_ hm
    rw [memo, cursor, Option.bind_some, memo?, note]
    rfl

theorem Timing.elsewhere {now' : Option Seconds} {stay' : Stay} (h : c.Timing caller σ now stay)
    (hcur : d.current = c.current) (hnotes : d.note? = c.note?)
    (hs : d.scratch.waitStart = c.scratch.waitStart) (harrived : stay'.arrived = stay.arrived)
    (hsampled : stay'.sampled = stay.sampled)
    (hdone : σ.scene.isDone caller.component = true ∨ now = some stay.arrived →
      σ'.scene.isDone caller.component = true ∨ now' = some stay.arrived) :
    d.Timing caller σ' now' stay' := by
  cases h with
  | ahead fresh idle debut =>
    refine .ahead (fun i => ?_) (hs.trans idle) fun hm => ?_
    · rw [sample?, hnotes]
      exact fresh i
    · have hmemo : d.memo? = c.memo? := by
        funext i
        rw [memo?, memo?, hnotes]
      rw [memo, hcur, hmemo] at hm
      rw [harrived, hsampled]
      exact ⟨(debut hm).1, hdone (debut hm).2⟩
  | amid cursor note others since sampled =>
    refine .amid (hcur.trans cursor) (by rw [hnotes, note]) (fun i hi => ?_)
      (by rw [hs, since, harrived]) (hsampled.trans sampled)
    rw [sample?, hnotes]
    exact others i hi

end Chain

section Visits

variable [Named κ] {act : α → Caller → Script κ ω (Except Failure Unit)} {caller : Caller}
  {c d : Chain κ ω α} {σ σ' : Setting κ ω} {now : Option Seconds} {stay : Stay} {absolute : Seconds}
  {id : NodeId} {here : Node κ ω α} {seconds : Lazy ω Seconds} {passes : Seconds → Seconds → Bool}

structure Ticked (c : Chain κ ω α) (id : NodeId) (since limit : Seconds) (goesOn : Bool)
    (d : Chain κ ω α) : Prop where
  passed : goesOn = true → d.current = c.next? id ∧ (∀ i, d.sample? i = none) ∧ d.scratch = {}
  waiting : goesOn = false → d.current = c.current ∧ d.note? id = some ⟨.start, some limit⟩ ∧
    (∀ i, i ≠ id → d.sample? i = none) ∧ d.scratch = { waitStart := some since }

variable (act caller absolute) in
theorem outcome_turn_timer (hn : c.nodes[id]? = some here)
    (ht : here.command.timer? = some (seconds, passes)) (hs : Memo.Suits .start c.scratch)
    (hothers : ∀ i, i ≠ id → c.sample? i = none) {limit : Seconds} {w : ω}
    (hv : seconds.value σ.world = (.ok limit, w)) :
    let since := c.scratch.waitStart.getD absolute
    ∃ d, ((turn act caller absolute id).run c).run caller σ =
        (.ok (.ok (passes (absolute - since) limit), d), ⟨σ.scene, w⟩) ∧
      Ticked c id since limit (passes (absolute - since) limit) d := by
  intro since
  have hsample (scratch : Scratch) (scopes : Scopes) (i : NodeId) (hi : i ≠ id) :
      ({ c.sampling id here.command limit with scratch, scopes } : Chain κ ω α).sample? i = none := by
    have hnote := note?_sampling hn ht limit i
    rw [if_neg (Ne.symm hi)] at hnote
    exact (congrArg (Option.bind · Note.sampled) hnote).trans (hothers i hi)
  obtain ⟨scopes, hdispatch⟩ := outcome_dispatch_timer caller act absolute hn ht σ
  rw [turn, run_bind, Script.run_bind, hdispatch]
  simp only [hv, Except.map, hs.setStart]
  cases hp : passes (absolute - since) limit with
  | false =>
    simp only [Bool.false_eq_true, if_false]
    refine ⟨_, rfl, by rintro ⟨⟩, fun _ => ⟨rfl, ?_, ?_, rfl⟩⟩
    · exact (note?_sampling hn ht limit id).trans (if_pos rfl)
    · exact hsample _ _
  | true =>
    simp only [if_true]
    let paused : Chain κ ω α := { c.sampling id here.command limit with scratch := {}, scopes }
    obtain ⟨nodes, hplay⟩ : ∃ nodes, (settle id .advance).play caller paused ⟨σ.scene, w, []⟩ =
        (.ok (.ok true, { paused with nodes, current := here.next }), _) :=
      play_settle_advance (n := { here with command := here.command.sampling limit })
        (getElem?_modifyNode hn _)
    have hrun := outcome_of_play (settle id .advance) caller paused ⟨σ.scene, w⟩
    rw [hplay] at hrun
    have hnext : c.next? id = here.next := by rw [next?, hn, Option.bind_some]
    refine ⟨_, hrun, fun _ => ⟨hnext.symm, ?_, rfl⟩, by rintro ⟨⟩⟩
    have hmoved := (triple_settle (E := fun _ _ => True) paused (.ok true) _ rfl ⟨_, _, hrun⟩)
    rw [Ends, if_pos rfl] at hmoved
    intro i
    by_cases hi : i = id
    · rw [hi]
      exact hmoved.left rfl
    · exact (hmoved.samples i).elim (fun h => h) fun h => h.trans (hsample _ _ i hi)

theorem outcome_turn_crash (hn : c.nodes[id]? = some here)
    (ht : here.command.timer? = some (seconds, passes)) {crash : Crash} {w : ω}
    (hv : seconds.value σ.world = (.error crash, w)) :
    ((turn act caller absolute id).run c).run caller σ = (.error crash, ⟨σ.scene, w⟩) := by
  obtain ⟨scopes, hdispatch⟩ := outcome_dispatch_timer caller act absolute hn ht σ
  rw [turn, run_bind, Script.run_bind, hdispatch, hv]
  rfl

variable (act) in
/-- An undisturbed round on a wait for a time. It lets go if the time since the cursor came is enough for
the duration that was given then, which is now if the cursor has just come. -/
theorem outcome_visit (h : c.Timing caller σ (some absolute) stay) (hneat : c.Neat)
    (hu : c.Undisturbed caller σ) (hcur : c.current = some id) (hn : c.nodes[id]? = some here)
    (ht : here.command.timer? = some (seconds, passes)) :
    (stay.sampled = none → stay.arrived = absolute) ∧
      (∀ limit, (stay.visited caller c σ).sampled = some limit → ∃ d σ',
        ((round act caller absolute).run c).run caller σ =
            (.ok (.ok (passes (absolute - stay.arrived) limit), d), σ') ∧
          Ticked c id stay.arrived limit (passes (absolute - stay.arrived) limit) d) ∧
      ((stay.visited caller c σ).sampled = none → ∃ crash σ',
        ((round act caller absolute).run c).run caller σ = (.error crash, σ')) := by
  have hnote := Command.note_of_timer ht
  have hmemo : c.memo = .start := by rw [memo_of_node hcur hn, hnote]
  have hsuits := hneat.suits
  rw [hmemo] at hsuits
  have hround : ((round act caller absolute).run c).run caller σ =
      ((turn act caller absolute id).run c).run caller (checked c σ) := outcome_round hu hcur
  have hothers := h.others hcur
  have hsampled : (stay.visited caller c σ).sampled =
      (stay.sampled <|> (seconds.reset.value (checked c σ).world).1.toOption) := by
    have htimer : c.currentCommand?.bind Command.timer? = some (seconds, passes) := by
      rw [currentCommand?, hcur, Option.bind_some, hn, Option.map_some, Option.bind_some, ht]
    rw [Stay.visited, hu.running, if_neg Bool.false_ne_true, duration?, htimer, Option.bind_some]
  have hturn {limit : Seconds} {w : ω} (hv : seconds.value (checked c σ).world = (.ok limit, w))
      (hsince : c.scratch.waitStart.getD absolute = stay.arrived) : ∃ d σ',
        ((round act caller absolute).run c).run caller σ =
            (.ok (.ok (passes (absolute - stay.arrived) limit), d), σ') ∧
          Ticked c id stay.arrived limit (passes (absolute - stay.arrived) limit) d := by
    rw [hround, ← hsince]
    obtain ⟨d, hrun, hticked⟩ := outcome_turn_timer act caller absolute hn ht hsuits hothers hv
    exact ⟨d, _, hrun, hticked⟩
  rw [hsampled]
  cases h with
  | ahead fresh idle debut =>
    -- The cursor has just come, so the wait begins now and nothing is kept of its duration.
    obtain ⟨hnone, hdebut⟩ := debut hmemo
    obtain harrived : absolute = stay.arrived := by
      obtain hdone | hnow := hdebut
      · cases hu.running.symm.trans hdone
      · exact Option.some.inj hnow
    have hcached : seconds.cached = none := by
      have hfresh := fresh id
      rw [sample?, note?_of_node hn, hnote] at hfresh
      exact hfresh
    have hreset : seconds.reset = seconds := by
      obtain ⟨param, cached⟩ := seconds
      cases hcached
      rfl
    rw [hnone, hreset]
    refine ⟨fun _ => harrived.symm, ?_⟩
    cases hv : seconds.value (checked c σ).world with
    | mk value w =>
      cases value with
      | error crash =>
        exact ⟨by rintro _ ⟨⟩, fun _ => ⟨crash, _, hround.trans (outcome_turn_crash hn ht hv)⟩⟩
      | ok limit =>
        refine ⟨fun limit' hl => ?_, by rintro ⟨⟩⟩
        cases hl
        exact hturn hv (by rw [idle, Option.getD_none, harrived])
  | @amid id' limit cursor note others since sampled =>
    -- The wait goes on, and keeps its beginning and its duration.
    cases cursor.symm.trans hcur
    rw [note?_of_node hn, hnote] at note
    have hcached : seconds.cached = some limit := congrArg Note.sampled (Option.some.inj note)
    rw [sampled]
    refine ⟨by rintro ⟨⟩, fun limit' hl => ?_, by rintro ⟨⟩⟩
    cases hl
    exact hturn (Lazy.value_of_cached hcached _) (by rw [since, Option.getD_some])

variable (act absolute) in
theorem triple_turn_untimed (hneat : c.Neat) (hcur : c.current = some id)
    (hn : c.nodes[id]? = some here) (hm : c.memo ≠ .start) (hfresh : ∀ i, c.sample? i = none) :
    Triple caller (· = c) (turn act caller absolute id)
      (fun goesOn d => (∀ i, d.sample? i = none) ∧ d.scratch.waitStart = none ∧
        (goesOn = false → d.memo ≠ .start))
      fun _ d => (∀ i, d.sample? i = none) ∧ d.scratch.waitStart = none ∧ d.memo ≠ .start := by
  have hmemo := memo_of_node hcur hn
  have hsuits := hneat.suits
  rw [hmemo] at hsuits hm
  have hkept {d : Chain κ ω α} (ha : Alike c d) (ht : Tidy c here.command.note.memo d) :
      (∀ i, d.sample? i = none) ∧ d.scratch.waitStart = none ∧ d.memo ≠ .start := by
    refine ⟨fun i => ?_, ht.suits.idle hm, ?_⟩
    · rw [sample?, ht.notes]
      exact hfresh i
    · have hsame : d.memo? = c.memo? := by
        funext i
        rw [memo?, memo?, ht.notes]
      rw [memo, ha.current, hsame, ← memo, hmemo]
      exact hm
  refine triple_bind (((dispatch_spec absolute hn).and (departs_dispatch hn hm hsuits)).imp
    (fun _ hc => hc) (Q := fun flow d => Alike c d ∧ Tidy c here.command.note.memo d ∧
      (flow ≠ .suspend → d.scratch = {})) (fun _ _ hd => ⟨hd.1.1, hd.2⟩)
    fun _ _ hd => hkept hd.1.1 hd.2) fun flow => triple_of ?_
  rintro d ⟨ha, htidy, hempty⟩
  obtain ⟨hsamples, hidle, hstays⟩ := hkept ha htidy
  refine triple_settle.post ?_
  intro goesOn e he
  cases goesOn with
  | false =>
    obtain rfl : e = d := he
    exact ⟨hsamples, hidle, fun _ => hstays⟩
  | true =>
    rw [if_pos rfl] at he
    refine ⟨fun i => (he.samples i).elim (fun h => h) fun h => h.trans (hsamples i), ?_, by rintro ⟨⟩⟩
    obtain ⟨nodes, current, rfl⟩ := he.others
    change d.scratch.waitStart = none
    exact hidle

/-- What a round makes of a stay that goes on after it, or that begins with it. -/
theorem timing_round (hneat : c.Neat) (h : c.finished = false → c.Timing caller σ (some absolute) stay)
    {answer : Except Failure Bool} (hfin : d.finished = false)
    (hr : ((round act caller absolute).run c).run caller σ = (.ok (answer, d), σ')) :
    (answer = .ok true → d.Timing caller σ' (some absolute) { arrived := absolute }) ∧
      (answer ≠ .ok true → d.Timing caller σ' none (stay.visited caller c σ)) := by
  cases passed_round hr with
  | stopped hdone =>
    refine ⟨nofun, fun _ => ?_⟩
    rw [Stay.visited, hdone, if_pos rfl]
    exact (h hfin).elsewhere rfl rfl rfl rfl rfl fun _ => .inl hdone
  | ended => cases hfin
  | unclosed hcur =>
    refine ⟨nofun, fun _ => ?_⟩
    have hm : c.memo ≠ .start := by
      rw [memo_of_current_none hcur]
      exact nofun
    obtain ⟨hfresh, hidle⟩ := (h hfin).of_memo hm
    exact .ahead hfresh hidle fun hs => absurd hs hm
  | @turned id here _ _ _ hu hcur hn hturn =>
    have htiming := h (hneat.running hcur).2
    have hmemo := memo_of_node hcur hn
    by_cases hm : c.memo = .start
    · obtain ⟨seconds, passes, ht⟩ := Command.timer_of_start (hmemo.symm.trans hm)
      obtain ⟨-, hsampled, hcrashed⟩ := outcome_visit act htiming hneat hu hcur hn ht
      cases hl : (stay.visited caller c σ).sampled with
      | none =>
        obtain ⟨crash, σ'', hcrash⟩ := hcrashed hl
        cases hr.symm.trans hcrash
      | some limit =>
        obtain ⟨d', σ'', hrun, hticked⟩ := hsampled limit hl
        cases hr.symm.trans hrun
        refine ⟨fun hgo => ?_, fun hne => ?_⟩
        · obtain ⟨-, hfresh, hempty⟩ := hticked.passed (Except.ok.inj hgo)
          exact .ahead hfresh (by rw [hempty]) fun _ => ⟨rfl, .inr rfl⟩
        · have hstays : passes (absolute - stay.arrived) limit = false :=
            (Bool.eq_false_or_eq_true _).resolve_left fun hp => hne (congrArg Except.ok hp)
          obtain ⟨hcurrent, hnote, hothers, hsince⟩ := hticked.waiting hstays
          have harrived : (stay.visited caller c σ).arrived = stay.arrived := by
            rw [Stay.visited]
            split <;> rfl
          exact .amid (hcurrent.trans hcur) hnote hothers (by rw [hsince, harrived]) hl
    · have hends := triple_turn_untimed act absolute hneat hcur hn hm
        (htiming.of_memo hm).1 c answer d rfl ⟨_, σ', hturn⟩
      cases answer with
      | error f => exact ⟨nofun, fun _ => .ahead hends.1 hends.2.1 fun hs => absurd hs hends.2.2⟩
      | ok goesOn =>
        refine ⟨fun _ => .ahead hends.1 hends.2.1 fun _ => ⟨rfl, .inr rfl⟩, fun hne => ?_⟩
        have hstays : goesOn = false :=
          (Bool.eq_false_or_eq_true goesOn).resolve_left fun hp => hne (congrArg Except.ok hp)
        exact .ahead hends.1 hends.2.1 fun hs => absurd hs (hends.2.2 hstays)

end Visits

section History

variable [Named κ] {act : α → Caller → Script κ ω (Except Failure Unit)} {caller : Caller}
  {built c d : Chain κ ω α} {σ σ' : Setting κ ω} {now : Option Seconds} {stay : Stay}

theorem timing_called (hneat : c.Neat) (h : c.finished = false → c.Timing caller σ none stay) {fuel : Nat}
    {callback : Callback} (hc : ∀ delta absolute, callback ≠ .update delta absolute)
    {answer : Except Failure Unit}
    (hr : (Chain.behaviour act fuel callback caller c).run caller σ = (.ok (answer, d), σ'))
    (hfin : d.finished = false) : d.Timing caller σ' none stay := by
  cases callback with
  | init =>
    cases hr
    exact (h hfin).elsewhere rfl rfl rfl rfl rfl fun h => h
  | attach | remove =>
    cases hr
    exact h hfin
  | update delta absolute => exact absurd rfl (hc delta absolute)
  | message m =>
    obtain ⟨rfl, rfl | ⟨hk, rfl⟩⟩ := outcome_notice hr
    · exact h hfin
    · exact (h hfin).elsewhere rfl rfl rfl rfl rfl fun h => h
  | finish | detach =>
    have hends := triple_shutDown_neat c answer d trivial ⟨σ, σ', hr⟩
    cases answer with
    | ok _ => cases hfin.symm.trans hends.2
    | error f => exact hends.elim

omit [Named κ] in
theorem timing_opening (hneat : c.Neat) (h : c.finished = false → c.Timing caller σ none stay)
    (ho : c.opening = .ok d) (absolute : Seconds) :
    d.Timing caller σ (some absolute) (if c.started then stay else { arrived := absolute }) := by
  obtain ⟨r, hnotes, hcur, hstarted, hfinished, -, hd⟩ := exists_opening ho
  have hlive := live_opening ho
  have hfin : c.finished = false := by
    have hf := hlive.1.finished
    rw [hd] at hf
    rw [← hfinished, ← hf]
    split <;> rfl
  cases hs : c.started with
  | true =>
    rw [hstarted, hs, if_pos rfl] at hd
    subst hd
    rw [if_pos rfl]
    refine (h hfin).elsewhere hcur hnotes (congrArg Scratch.waitStart hlive.2) rfl rfl fun hdone => ?_
    exact .inl (hdone.elim (fun h => h) nofun)
  | false =>
    rw [hstarted, hs, if_neg Bool.false_ne_true] at hd
    rw [if_neg Bool.false_ne_true]
    have hm : c.memo ≠ .start := by
      rw [memo_of_current_none (hneat.blank hs)]
      exact nofun
    obtain ⟨hfresh, hidle⟩ := (h hfin).of_memo hm
    refine .ahead (fun i => ?_) ((congrArg Scratch.waitStart hlive.2).trans hidle)
      fun _ => ⟨rfl, .inr rfl⟩
    rw [hd, sample?]
    exact (congrArg (Option.bind · Note.sampled) (congrFun hnotes i)).trans (hfresh i)

theorem Clocked.timing (hb : built.Neat) (hidle : built.started = false)
    (hfresh : ∀ id, built.sample? id = none) (h : Clocked act caller built c σ now stay) :
    c.Neat ∧ (c.finished = false → c.Timing caller σ now stay) := by
  induction h with
  | built σ stay =>
    have hcur := hb.blank hidle
    refine ⟨hb, fun _ => .ahead hfresh (by rw [hb.scratch hcur]) fun hm => ?_⟩
    rw [memo_of_current_none hcur] at hm
    cases hm
  | meanwhile _ hdone ih =>
    exact ⟨ih.1, fun hfin => (ih.2 hfin).elsewhere rfl rfl rfl rfl rfl fun h => h.imp hdone id⟩
  | called fuel callback _ hc hr ih =>
    exact ⟨neat_behaviour ih.1 ⟨_, _, hr⟩, fun hfin => timing_called ih.1 ih.2 hc hr hfin⟩
  | refused _ hr ih =>
    obtain ⟨rfl, rfl⟩ := eq_of_refused hr
    exact ih
  | begun absolute _ hr ih =>
    obtain ⟨ho, rfl⟩ := opening_of_start hr
    exact ⟨(ih.1.opening ho).1, fun _ => timing_opening ih.1 ih.2 ho absolute⟩
  | onward _ hr ih =>
    exact ⟨(triple_round_neat _ _ _ ih.1 ⟨_, _, hr⟩).1,
      fun hfin => (timing_round ih.1 ih.2 hfin hr).1 rfl⟩
  | @rested _ _ _ _ _ _ answer _ hr hne ih =>
    have hends := triple_round_neat _ _ _ ih.1 ⟨_, _, hr⟩
    refine ⟨?_, fun hfin => (timing_round ih.1 ih.2 hfin hr).2 hne⟩
    cases answer with
    | ok goesOn => exact hends.1
    | error f => exact hends

/-- At this moment of a step an undisturbed round on a wait for a time asks for the duration if the cursor
has come in this step. It goes on to the next command if the time since the cursor came is enough for the
duration that was given then, and stays if not. -/
def Stay.Measures (act : α → Caller → Script κ ω (Except Failure Unit)) (caller : Caller)
    (c : Chain κ ω α) (σ : Setting κ ω) (absolute : Seconds) (stay : Stay) : Prop :=
  ∀ seconds passes, c.currentCommand?.bind Command.timer? = some (seconds, passes) →
    (stay.sampled = none → stay.arrived = absolute) ∧
      (∀ limit, (stay.visited caller c σ).sampled = some limit → ∃ c' σ',
        ((round act caller absolute).run c).run caller σ =
            (.ok (.ok (passes (absolute - stay.arrived) limit), c'), σ') ∧
          c'.current = if passes (absolute - stay.arrived) limit then c.current.bind c.next?
            else c.current) ∧
      ((stay.visited caller c σ).sampled = none → ∃ crash σ',
        ((round act caller absolute).run c).run caller σ = (.error crash, σ'))

theorem Chain.Timing.measures {absolute : Seconds} (hneat : c.Neat)
    (h : c.finished = false → c.Timing caller σ (some absolute) stay) (hu : c.Undisturbed caller σ) :
    stay.Measures act caller c σ absolute := by
  intro seconds passes ht
  obtain ⟨command, hcommand, htimer⟩ := Option.bind_eq_some_iff.mp ht
  obtain ⟨id, hcur, hnode⟩ := Option.bind_eq_some_iff.mp hcommand
  obtain ⟨here, hn, rfl⟩ := Option.map_eq_some_iff.mp hnode
  obtain ⟨hdebut, hsampled, hcrashed⟩ :=
    outcome_visit act (h (hneat.running hcur).2) hneat hu hcur hn htimer
  refine ⟨hdebut, fun limit hl => ?_, hcrashed⟩
  obtain ⟨d, σ', hrun, hticked⟩ := hsampled limit hl
  refine ⟨d, σ', hrun, ?_⟩
  rw [hcur, Option.bind_some]
  cases hp : passes (absolute - stay.arrived) limit with
  | true => rw [if_pos rfl, (hticked.passed hp).1]
  | false => rw [if_neg Bool.false_ne_true, (hticked.waiting hp).1, hcur]

/-- Whatever a chain went through, its record fits its cursor, and nothing is left of it in a chain that
has finished. In a step, too, and wherever the cursor comes to a command the record is empty. So a chain
that is started afresh measures every wait for a time from the step in which the cursor came to it
last. -/
theorem wait_state_history (act : α → Caller → Script κ ω (Except Failure Unit)) {c : Chain κ ω α}
    (h : Lived act c) :
    c.Orderly ∧
      (∀ caller absolute n answer d,
        ((start >>= fun _ => pace act caller absolute n).run c).Answers caller (answer, d) →
          d.Orderly ∧ (answer = .ok true → n ≠ 0 ∨ c.started = false → d.scratch = {})) ∧
      (c.started = false → (∀ id, c.sample? id = none) → ∀ caller d σ absolute stay,
        Clocked act caller c d σ (some absolute) stay → d.Undisturbed caller σ →
          stay.Measures act caller d σ absolute) := by
  refine ⟨h.neat.orderly, ?_, fun hs hfresh caller d σ absolute stay hmoment hu => ?_⟩
  · rintro caller absolute n answer d ⟨σ, σ', hr⟩
    rw [run_bind, Script.run_bind, run_start] at hr
    cases ho : c.opening with
    | error f =>
      rw [ho] at hr
      cases hr
      exact ⟨h.neat.orderly, nofun⟩
    | ok e =>
      rw [ho] at hr
      obtain ⟨hneat, hempty⟩ := h.neat.opening ho
      have hends := triple_pace_neat n e answer d hneat ⟨σ, σ', hr⟩
      cases answer with
      | error f => exact ⟨Neat.orderly hends, nofun⟩
      | ok goesOn =>
        refine ⟨hends.1.orderly, fun hgo hmoved => ?_⟩
        cases n with
        | succ n => exact hends.2 (Except.ok.inj hgo) n.succ_ne_zero
        | zero =>
          cases hr
          exact hempty (hmoved.resolve_left fun hne => hne rfl)
  · obtain ⟨hneat, htiming⟩ := hmoment.timing h.neat hs hfresh
    exact Timing.measures hneat htiming hu

end History

def nap : Chain Probe Nat Unit := Chain.append { name := "nap" } (.waitTime ⟨.value 1, none⟩)

def bedroom : Setting Probe Nat :=
  ⟨((({} : Scene Probe).addEntity "host").2.addComponent ⟨1⟩ {}).2, 0⟩

def rest (_ : Unit) (_ : Caller) : Script Probe Nat (Except Failure Unit) := .done (.ok ())

def asleep : Chain Probe Nat Unit := { nap with jumpsStale := false, started := true, current := some 0 }

/-- In its first step the chain comes to its wait with an empty record and measures from then. -/
theorem wait_state_history_nap :
    Lived rest nap ∧ nap.Orderly ∧
      ((start : ChainRun Probe Nat Unit Unit).run nap).run ⟨⟨1⟩, ⟨1⟩⟩ bedroom =
        (.ok (.ok (), asleep), bedroom) ∧ asleep.scratch = {} ∧
      ∃ e σ, ((round rest ⟨⟨1⟩, ⟨1⟩⟩ 5).run asleep).run ⟨⟨1⟩, ⟨1⟩⟩ bedroom =
        (.ok (.ok (decide ((5 : Seconds) - 5 > 1)), e), σ) := by
  have hlived : Lived rest nap := (Lived.new "nap").append _
  have hstart : ((start : ChainRun Probe Nat Unit Unit).run nap).run ⟨⟨1⟩, ⟨1⟩⟩ bedroom =
      (.ok (.ok (), asleep), bedroom) := rfl
  have hfresh (id : NodeId) : nap.sample? id = none := by
    cases id <;> rfl
  obtain ⟨horderly, hsteps, htimes⟩ := wait_state_history rest hlived
  refine ⟨hlived, horderly, hstart, ?_, ?_⟩
  · exact (hsteps ⟨⟨1⟩, ⟨1⟩⟩ 5 0 (.ok true) asleep ⟨bedroom, bedroom, rfl⟩).2 rfl (.inr rfl)
  · have hmoment : Clocked rest ⟨⟨1⟩, ⟨1⟩⟩ nap asleep bedroom (some 5) ⟨5, none⟩ :=
      .begun 5 (.built bedroom ⟨0, none⟩) hstart
    obtain ⟨-, hsampled, -⟩ := htimes rfl hfresh _ _ _ _ _ hmoment ⟨by decide +kernel, rfl⟩ _ _ rfl
    obtain ⟨e, σ, hrun, -⟩ := hsampled 1 rfl
    exact ⟨e, σ, hrun⟩

end FrameChain
