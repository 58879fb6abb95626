import FrameChain.Proofs.Chain.Scratch
import FrameChain.Proofs.Rebuilding

set_option autoImplicit false

namespace FrameChain

open Chain ChainRun

variable {κ ω α τ : Type}

theorem Command.timer_of_start {command : Command κ ω α} (h : command.note.memo = .start) :
    ∃ seconds passes, command.timer? = some (seconds, passes) := by
  cases command with
  | waitTime | beginInterval => exact ⟨_, _, rfl⟩
  | _ => cases h

namespace Chain

variable {c d j : Chain κ ω α} {id : NodeId} {here : Node κ ω α}

def memo (c : Chain κ ω α) : Memo := (c.current.bind c.memo?).getD .nothing

theorem memo?_sampling (hn : c.nodes[id]? = some here) {seconds : Lazy ω Seconds}
    {passes : Seconds → Seconds → Bool} (ht : here.command.timer? = some (seconds, passes))
    (limit : Seconds) : (c.sampling id here.command limit).memo? = c.memo? := by
  funext i
  rw [memo?, memo?, sampling, note?_setCommand]
  split
  · rename_i hi
    subst hi
    rw [note?_of_node hn]
    cases hcmd : here.command with
    | waitTime | beginInterval => rfl
    | _ =>
      rw [hcmd] at ht
      cases ht
  · rfl

theorem memo_of_node (hcur : c.current = some id) (hn : c.nodes[id]? = some here) :
    c.memo = here.command.note.memo := by
  rw [memo, hcur, Option.bind_some, memo?_of_node hn, Option.getD_some]

theorem memo_of_current_none (hcur : c.current = none) : c.memo = .nothing := by
  rw [memo, hcur, Option.bind_none, Option.getD_none]

/-- The scratch record suits the cursor, and only a running chain stands somewhere. -/
structure Neat (c : Chain κ ω α) : Prop where
  suits : c.memo.Suits c.scratch
  blank : c.started = false → c.current = none
  ended : c.finished = true → c.current = none ∧ c.scopes = {}

theorem Neat.scratch (h : c.Neat) (hcur : c.current = none) : c.scratch = {} := by
  have hs := h.suits
  rw [memo_of_current_none hcur] at hs
  exact hs.nothing

theorem Neat.running (h : c.Neat) (hcur : c.current = some id) :
    c.started = true ∧ c.finished = false := by
  constructor
  · cases hs : c.started with
    | true => rfl
    | false => cases (h.blank hs).symm.trans hcur
  · cases hf : c.finished with
    | false => rfl
    | true => cases (h.ended hf).1.symm.trans hcur

theorem neat_released (c : Chain κ ω α) : Neat { c.released with finished := true } :=
  ⟨.empty _, fun _ => rfl, fun _ => ⟨rfl, rfl⟩⟩

theorem neat_of_empty (hs : c.started = true) (hf : c.finished = false) (h : c.scratch = {}) :
    c.Neat :=
  ⟨h ▸ .empty _, fun hns => absurd (hs.symm.trans hns) Bool.false_ne_true.symm,
    fun hfin => absurd (hf.symm.trans hfin) Bool.false_ne_true⟩

theorem Neat.move (h : c.Neat) (hcur : d.current = c.current) (hmemo : d.memo? = c.memo?)
    (hs : c.memo.Suits d.scratch) (hstarted : d.started = c.started) (hfin : d.finished = c.finished)
    (hscopes : c.finished = true → d.scopes = c.scopes) : d.Neat := by
  have hsame : d.memo = c.memo := by rw [memo, memo, hcur, hmemo]
  refine ⟨hsame ▸ hs, fun hns => hcur.trans (h.blank (hstarted.symm.trans hns)), fun hf => ?_⟩
  rw [hfin] at hf
  exact ⟨hcur.trans (h.ended hf).1, (hscopes hf).trans (h.ended hf).2⟩

theorem note?_append {note : Note} (hn : c.note? id = some note) (command : Command κ ω α) :
    (c.append command).note? id = some note := by
  obtain ⟨n, hnode, rfl⟩ := Option.map_eq_some_iff.mp hn
  have hlt : id < c.nodes.size := (Array.getElem?_eq_some_iff.mp hnode).1
  cases ht : c.tail with
  | none =>
    simp only [note?, append, ht, Array.getElem?_push, Nat.ne_of_lt hlt, if_false, hnode,
      Option.map_some]
  | some tail =>
    have hne : id ≠ (c.nodes.modify tail fun node => { node with next := some c.nodes.size }).size := by
      rw [Array.size_modify]
      exact Nat.ne_of_lt hlt
    simp only [note?, append, ht, modifyNode, Array.getElem?_push, hne, if_false,
      Array.getElem?_modify, hnode]
    split <;> rfl

theorem Neat.append (h : c.Neat) (command : Command κ ω α) : (c.append command).Neat := by
  obtain hj | ⟨nodes, head, tail, hj⟩ := relisted_append c command
  · exact hj.symm ▸ h
  have hcur : (c.append command).current = c.current := by rw [hj]
  have hscratch : (c.append command).scratch = c.scratch := by rw [hj]
  refine ⟨?_, fun hs => ?_, fun hf => ?_⟩
  · rw [hscratch]
    cases hc : c.current with
    | none =>
      rw [h.scratch hc]
      exact .empty _
    | some id =>
      cases hn : c.note? id with
      | none =>
        have hmemo : c.memo = .nothing := by rw [memo, hc, Option.bind_some, memo?, hn]; rfl
        have hs := h.suits
        rw [hmemo] at hs
        rw [hs.nothing]
        exact .empty _
      | some note =>
        have hsame : (c.append command).memo = c.memo := by
          rw [memo, memo, hcur, hc, Option.bind_some, Option.bind_some, memo?, memo?, hn,
            note?_append hn]
        rw [hsame]
        exact h.suits
  · rw [hcur]
    exact h.blank (by rw [← hs, hj])
  · rw [hj] at hf
    rw [hj]
    exact h.ended hf

theorem Neat.relisted (h : c.Neat) (hs : c.started = false) (hj : Relisted c j) : j.Neat := by
  rcases hj with rfl | ⟨nodes, head, tail, rfl⟩
  · exact h
  · have hcur := h.blank hs
    refine ⟨?_, fun _ => hcur, h.ended⟩
    change Memo.Suits _ c.scratch
    rw [h.scratch hcur]
    exact .empty _

theorem exists_rejumped (ho : c.opening = .ok d) : ∃ r : Chain κ ω α,
    (∀ i : NodeId, r.nodes[i]?.map (·.command) = c.nodes[i]?.map (·.command)) ∧
      Rejumped { c with jumpsStale := false } r ∧ c.finished = false ∧
        d = if r.started then r else { r with started := true, current := r.head } := by
  obtain ⟨hf, r, ⟨hj, rfl⟩ | ⟨-, hr⟩, hd⟩ := opening_eq_ok_iff.mp ho
  · have hsame : { r with jumpsStale := false } = r := by rw [← hj]
    exact ⟨r, fun _ => rfl, by rw [hsame]; exact .refl r, hf, hd⟩
  · exact ⟨r, command_resolve hr, rejumped_resolve hr, hf, hd⟩

theorem exists_opening (ho : c.opening = .ok d) : ∃ r : Chain κ ω α, r.note? = c.note? ∧
    r.current = c.current ∧ r.started = c.started ∧ r.finished = c.finished ∧ r.scopes = c.scopes ∧
      d = if r.started then r else { r with started := true, current := r.head } := by
  obtain ⟨r, hcommands, hsame, hf, hd⟩ := exists_rejumped ho
  refine ⟨r, funext fun i => ?_, hsame.read Chain.current, hsame.read Chain.started,
    hsame.read Chain.finished, hsame.read Chain.scopes, hd⟩
  have hnote := congrArg (Option.map Command.note) (hcommands i)
  rw [Option.map_map, Option.map_map] at hnote
  exact hnote

theorem Neat.opening (h : c.Neat) (ho : c.opening = .ok d) :
    d.Neat ∧ (c.started = false → d.scratch = {}) := by
  obtain ⟨hlive, hscratch⟩ := live_opening ho
  obtain ⟨r, hnotes, hcur, hstarted, hfinished, hscopes, hd⟩ := exists_opening ho
  cases hs : c.started with
  | false =>
    have hempty : d.scratch = {} := hscratch.trans (h.scratch (h.blank hs))
    exact ⟨neat_of_empty hlive.started hlive.finished hempty, fun _ => hempty⟩
  | true =>
    rw [hstarted, hs, if_pos rfl] at hd
    subst hd
    have hmemo : d.memo? = c.memo? := by
      funext i
      rw [memo?, memo?, hnotes]
    refine ⟨h.move hcur hmemo ?_ hstarted hfinished fun _ => hscopes, by rintro ⟨⟩⟩
    rw [hscratch]
    exact h.suits

end Chain

namespace ChainRun

variable [Named κ] {act : α → Caller → Script κ ω (Except Failure Unit)} {self : Caller}
  {base : Chain κ ω α} {here : Node κ ω α} {id : NodeId} {absolute : Seconds}

theorem Triple.and {P : Chain κ ω α → Prop} {t : ChainRun κ ω α τ} {Q Q' : τ → Chain κ ω α → Prop}
    {E E' : Failure → Chain κ ω α → Prop} (h : Triple self P t Q E) (h' : Triple self P t Q' E') :
    Triple self P t (fun a c => Q a c ∧ Q' a c) fun f c => E f c ∧ E' f c := by
  intro c answer c' hc hr
  have hends := h c answer c' hc hr
  have hends' := h' c answer c' hc hr
  cases answer <;> exact ⟨hends, hends'⟩

def Minded (base : Chain κ ω α) (memo : Memo) (c : Chain κ ω α) : Prop :=
  c.memo? = base.memo? ∧ memo.Suits c.scratch

/-- What a command leaves in the record suits it, and nothing is left where it does not wait. -/
theorem triple_dispatch_minded (hn : base.nodes[id]? = some here)
    (hs : here.command.note.memo.Suits base.scratch) :
    Triple self (· = base) (dispatch act self absolute id)
      (fun flow c => Minded base here.command.note.memo c ∧ (flow ≠ .suspend → c.scratch = {}))
      fun _ => Minded base here.command.note.memo := by
  have hminded {c : Chain κ ω α} (h : Tidy base here.command.note.memo c) :
      Minded base here.command.note.memo c := ⟨by funext i; rw [memo?, memo?, h.notes], h.suits⟩
  by_cases ht : here.command.note.memo = .start
  · obtain ⟨seconds, passes, htimer⟩ := Command.timer_of_start ht
    rintro c answer d rfl ⟨σ, σ', hr⟩
    obtain ⟨scopes, hrun⟩ := outcome_dispatch_timer self act absolute hn htimer σ
    rw [hrun] at hr
    rw [ht] at hs ⊢
    cases hv : (seconds.value σ.world).1 with
    | error crash =>
      rw [hv] at hr
      cases hr
    | ok limit =>
      rw [hv] at hr
      have hmemo := memo?_sampling hn htimer limit
      simp only [Except.map, hs.setStart] at hr
      split at hr
      · cases hr
        exact ⟨⟨hmemo, .empty _⟩, fun _ => rfl⟩
      · cases hr
        exact ⟨⟨hmemo, .start _⟩, fun hne => absurd rfl hne⟩
  · exact (departs_dispatch hn ht hs).imp (fun _ h => h) (fun _ _ h => ⟨hminded h.1, h.2⟩)
      fun _ _ h => hminded h

structure Moved (base : Chain κ ω α) (id : NodeId) (flow : Flow) (c : Chain κ ω α) : Prop where
  waits : flow ≠ .suspend
  others : ∃ nodes current, c = { base with nodes, current }
  samples : ∀ i, c.sample? i = none ∨ c.sample? i = base.sample? i
  left : flow = .advance → c.sample? id = none

theorem triple_settle {flow : Flow} {E : Failure → Chain κ ω α → Prop} :
    Triple self (· = base) (settle id flow)
      (fun goesOn c => if goesOn then Moved base id flow c else c = base) E := by
  have hleave (flow : Flow) (hne : flow ≠ .suspend) (target : NodeId) : Triple self (· = base) (do
      leave id
      moveAfter target
      return true) (fun goesOn c => if goesOn then Moved base id flow c else c = base) E := by
    refine triple_bind (triple_modify (Q := fun _ => Moved base id flow) ?_) fun _ => ?_
    · rintro c rfl
      have hleft (i : NodeId) := note?_left c id i
      rw [Chain.left] at hleft
      refine ⟨hne, ⟨_, _, rfl⟩, fun i => ?_, fun _ => ?_⟩
      · rw [sample?, sample?, hleft]
        cases c.note? i with
        | none => exact .inl rfl
        | some note =>
          by_cases hi : id = i
          · exact .inl (by rw [Option.map_some, if_pos hi]; rfl)
          · exact .inr (by rw [Option.map_some, if_neg hi])
      · rw [sample?, hleft]
        cases c.note? id with
        | none => rfl
        | some note => rw [Option.map_some, if_pos rfl]; rfl
    · refine triple_of fun c hc => ?_
      refine triple_bind (Q := fun _ => Moved base id flow) (triple_node fun n _ => triple_modify ?_)
        fun _ => triple_pure fun _ hc => hc
      rintro _ rfl
      obtain ⟨nodes, current, hother⟩ := hc.others
      exact ⟨hne, ⟨nodes, n.next, by rw [hother]⟩, hc.samples, hc.left⟩
  cases flow with
  | suspend => exact triple_pure fun _ hc => hc
  | jump target =>
    refine triple_bind (triple_modify (Q := fun _ => Moved base id (.jump target)) ?_)
      fun _ => triple_pure fun _ hc => hc
    rintro _ rfl
    exact ⟨by rintro ⟨⟩, ⟨_, _, rfl⟩, fun _ => .inr rfl, by rintro ⟨⟩⟩
  | advance => exact hleave .advance (by rintro ⟨⟩) id
  | jumpPast target => exact hleave (.jumpPast target) (by rintro ⟨⟩) target

def Cleared (goesOn : Bool) (c : Chain κ ω α) : Prop := c.Neat ∧ (goesOn = true → c.scratch = {})

theorem triple_round_neat :
    Triple self Neat (round act self absolute) Cleared fun _ => Neat := by
  refine triple_round_of (fun _ h => ⟨h, nofun⟩) (fun c _ => ⟨neat_released c, nofun⟩)
    (fun _ h _ _ => h) ?_
  intro base id here h hcur hn
  have hmemo := memo_of_node hcur hn
  have hsuits := h.suits
  rw [hmemo] at hsuits
  obtain ⟨hstarted, hfinished⟩ := h.running hcur
  have hkept {c : Chain κ ω α} (ha : Alike base c) (hm : Minded base here.command.note.memo c) :
      c.Neat :=
    h.move ha.current hm.1 (hmemo ▸ hm.2) ha.started ha.finished fun hf =>
      absurd (hfinished.symm.trans hf) nofun
  have hdispatch : Triple self (· = base) (dispatch act self absolute id) (fun flow c => Alike base c ∧
      Minded base here.command.note.memo c ∧ (flow ≠ .suspend → c.scratch = {})) fun _ => Neat :=
    ((dispatch_spec absolute hn).and (triple_dispatch_minded hn hsuits)).imp (fun _ hc => hc)
      (fun _ _ hc => ⟨hc.1.1, hc.2⟩) fun _ _ hc => hkept hc.1.1 hc.2
  refine triple_bind hdispatch fun flow => triple_of ?_
  rintro c ⟨ha, hm, hempty⟩
  refine triple_settle.post ?_
  intro goesOn d hd
  cases goesOn with
  | false =>
    obtain rfl : d = c := hd
    exact ⟨hkept ha hm, nofun⟩
  | true =>
    obtain ⟨hne, ⟨nodes, current, rfl⟩, -, -⟩ := hd
    have hscratch := hempty hne
    exact ⟨neat_of_empty (ha.started.trans hstarted) (ha.finished.trans hfinished) hscratch,
      fun _ => hscratch⟩

theorem triple_pace_neat (n : Nat) : Triple self Neat (pace act self absolute n)
    (fun goesOn c => c.Neat ∧ (goesOn = true → n ≠ 0 → c.scratch = {})) fun _ => Neat := by
  -- By induction on the rounds. Only the first one may come from elsewhere with a record that is not empty.
  have hcleared (n : Nat) : Triple self (fun c => c.Neat ∧ c.scratch = {})
      (pace act self absolute n) Cleared fun _ => Neat := by
    induction n with
    | zero => exact triple_pure fun _ hc => ⟨hc.1, fun _ => hc.2⟩
    | succ n ih =>
      refine triple_bind (triple_round_neat.weaken fun _ hc => hc.1) fun goesOn =>
        triple_ite (fun hgo => ?_) fun _ => triple_pure fun _ hc => ⟨hc.1, nofun⟩
      exact ih.weaken fun _ hc => ⟨hc.1, hc.2 hgo⟩
  cases n with
  | zero => exact triple_pure fun _ hc => ⟨hc, fun _ hne => absurd rfl hne⟩
  | succ n =>
    refine triple_bind triple_round_neat fun goesOn => triple_ite (fun hgo => ?_) fun _ =>
      triple_pure fun _ hc => ⟨hc.1, nofun⟩
    exact (hcleared n).imp (fun _ hc => ⟨hc.1, hc.2 hgo⟩) (fun _ _ hc => ⟨hc.1, fun hgo _ => hc.2 hgo⟩)
      fun _ _ hc => hc

theorem triple_rounds_neat (fuel : Nat) :
    Triple self Neat (rounds act self absolute fuel) (fun _ => Neat) fun _ => Neat := by
  rw [← Nat.add_zero fuel, rounds_add]
  refine triple_bind (triple_pace_neat fuel) fun goesOn => triple_ite (fun _ => ?_) fun _ =>
    triple_pure fun _ hc => hc.1
  rw [rounds]
  exact triple_crash

theorem outcome_notice {m : Message} {c d : Chain κ ω α} {answer : Except Failure Unit}
    {σ σ' : Setting κ ω}
    (hr : ((notice m : ChainRun κ ω α Unit).run c).run self σ = (.ok (answer, d), σ')) :
    σ' = σ ∧ (d = c ∨ c.scratch.messageKey = some m.key ∧
      d = { c with scratch := { c.scratch with arrived := true } }) := by
  rw [notice, run_bind, run_chain] at hr
  simp only [Script.bind] at hr
  cases hcur : c.current with
  | none =>
    rw [hcur] at hr
    cases hr
    exact ⟨rfl, .inl rfl⟩
  | some id =>
    simp only [hcur, run_bind] at hr
    cases hn : c.nodes[id]? with
    | none =>
      simp only [node, run_bind, run_chain, Script.bind, hn] at hr
      cases hr
    | some n =>
      simp only [run_node_of hn, Script.bind] at hr
      split at hr
      · rename_i hk
        cases hr
        exact ⟨rfl, .inr ⟨beq_iff_eq.mp ((Bool.and_eq_true _ _).mp hk).2, by rw [← hcur]⟩⟩
      · cases hr
        exact ⟨rfl, .inl rfl⟩

theorem triple_shutDown_neat : Triple self (fun _ : Chain κ ω α => True) shutDown
    (fun _ c => c.Neat ∧ c.finished = true) fun _ _ => False := by
  refine triple_bind triple_release fun _ => triple_modify ?_
  rintro _ ⟨c, -, rfl⟩
  exact ⟨neat_released c, rfl⟩

theorem neat_behaviour {c d : Chain κ ω α} (h : c.Neat) {fuel : Nat} {callback : Callback}
    {answer : Except Failure Unit}
    (hr : (Chain.behaviour act fuel callback self c).Answers self (answer, d)) : d.Neat := by
  cases callback with
  | init =>
    obtain ⟨σ, σ', hr⟩ := hr
    cases hr
    exact ⟨h.suits, h.blank, h.ended⟩
  | attach | remove =>
    obtain ⟨σ, σ', hr⟩ := hr
    cases hr
    exact h
  | update delta absolute =>
    obtain ⟨σ, σ', hr⟩ := hr
    rw [Chain.behaviour, step, run_bind, Script.run_bind, run_start] at hr
    cases ho : c.opening with
    | error f =>
      rw [ho] at hr
      cases hr
      exact h
    | ok e =>
      rw [ho] at hr
      have hends := triple_rounds_neat fuel e answer d (h.opening ho).1 ⟨σ, σ', hr⟩
      cases answer <;> exact hends
  | message m =>
    obtain ⟨σ, σ', hr⟩ := hr
    obtain ⟨-, rfl | ⟨hk, rfl⟩⟩ := outcome_notice hr
    · exact h
    · exact ⟨h.suits.arrive hk, h.blank, h.ended⟩
  | finish | detach =>
    have hends := triple_shutDown_neat c answer d trivial hr
    cases answer with
    | ok _ => exact hends.1
    | error f => exact hends.elim

end ChainRun

theorem Lived.neat [Named κ] {act : α → Caller → Script κ ω (Except Failure Unit)}
    {c : Chain κ ω α} (h : Lived act c) : c.Neat := by
  induction h with
  | new name => exact ⟨.empty _, fun _ => rfl, nofun⟩
  | append _ command ih => exact ih.append command
  | interruptIf _ holds ih => exact ⟨ih.suits, ih.blank, ih.ended⟩
  | merged _ _ hm ih _ =>
    obtain ⟨⟨hidle, hj⟩, -⟩ := relisted_mergeWith hm
    exact ih.relisted (ensureIdle_ok.mp hidle).1 hj
  | mergedAtBeginning _ _ hm ih _ =>
    obtain ⟨⟨hidle, hj⟩, -⟩ := relisted_mergeAtBeginning hm
    exact ih.relisted (ensureIdle_ok.mp hidle).1 hj
  | donor _ _ hm _ ih =>
    obtain ⟨hidle, he⟩ := hm.elim (fun hm => (relisted_mergeWith hm).2)
      fun hm => (relisted_mergeAtBeginning hm).2
    exact ih.relisted (ensureIdle_ok.mp hidle).1 he
  | removedLast _ hr ih =>
    obtain ⟨hidle, hj⟩ := relisted_removeLast hr
    exact ih.relisted (ensureIdle_ok.mp hidle).1 hj
  | called fuel callback self _ hr ih => exact neat_behaviour ih hr

end FrameChain
