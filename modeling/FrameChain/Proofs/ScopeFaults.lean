import FrameChain.Proofs.Chain.Outcome
import FrameChain.Proofs.History

set_option autoImplicit false

/-! A closer takes the top off the scope stack before it looks at it. So a step that fails at a closer
leaves the stack shorter, and the next step meets the closer with the block further out on top. -/
namespace FrameChain

open Chain ChainRun

variable {κ ω α : Type}

def Failure.isClosing : Failure → Bool
  | emptyScope .. | scopeMismatch .. => true
  | _ => false

theorem Failure.isScope_of_isClosing {f : Failure} (h : f.isClosing = true) : f.isScope = true := by
  cases f <;> first | rfl | cases h

namespace Chain

/-- What a closer answers on this stack. Nothing if the block on top is of its kind. -/
def fault? (c : Chain κ ω α) (closer : Opcode) : List NodeId → Option Failure
  | [] => some (.emptyScope c.name closer)
  | opener :: _ => (c.opcode? opener).bind fun code =>
      if code.closer? = some closer then none else some (.scopeMismatch c.name code closer)

/-- The cursor of a chain that can go on is on a closer, with this stack. -/
structure Jams (c : Chain κ ω α) (closer : Opcode) (entries : List NodeId) : Prop where
  live : c.Live
  cursor : c.currentOpcode? = some closer
  kind : closer.kind = .closer
  scopes : c.scopes.entries = entries

variable {c d : Chain κ ω α} {closer : Opcode} {entries : List NodeId}

theorem Alike.opcode? (h : Alike c d) (id : NodeId) : d.opcode? id = c.opcode? id := by
  rw [opcode?_eq_fixed?, opcode?_eq_fixed?, h.fixed?]

theorem Alike.live (h : Alike c d) (hl : c.Live) : d.Live :=
  ⟨h.started.trans hl.started, h.finished.trans hl.finished, h.jumpsStale.trans hl.resolved⟩

theorem Alike.currentOpcode? (h : Alike c d) : d.currentOpcode? = c.currentOpcode? := by
  rw [Chain.currentOpcode?, Chain.currentOpcode?, h.current]
  exact congrArg c.current.bind (funext h.opcode?)

theorem Alike.fault? (h : Alike c d) (closer : Opcode) (entries : List NodeId) :
    d.fault? closer entries = c.fault? closer entries := by
  cases entries with
  | nil => exact congrArg some (congrArg (Failure.emptyScope · closer) (h.read Chain.name))
  | cons opener rest =>
    have hname : d.name = c.name := h.read Chain.name
    simp only [Chain.fault?, h.opcode?, hname]

theorem currentOpcode?_eq_some (h : c.currentOpcode? = some closer) :
    ∃ id here, c.current = some id ∧ c.nodes[id]? = some here ∧ here.command.opcode = closer := by
  obtain ⟨id, hcur, hcode⟩ := Option.bind_eq_some_iff.mp h
  obtain ⟨here, hn, hop⟩ := Option.map_eq_some_iff.mp hcode
  exact ⟨id, here, hcur, hn, hop⟩

theorem currentOpcode?_of_command {command : Command κ ω α} (h : c.currentCommand? = some command) :
    c.currentOpcode? = some command.opcode := by
  obtain ⟨id, hcur, hnode⟩ := Option.bind_eq_some_iff.mp h
  obtain ⟨here, hn, rfl⟩ := Option.map_eq_some_iff.mp hnode
  rw [currentOpcode?, hcur, Option.bind_some, opcode?, hn, Option.map_some]

end Chain

namespace ChainRun

variable [Named κ] {act : α → Caller → Script κ ω (Except Failure Unit)} {self : Caller}
  {c d base : Chain κ ω α} {σ σ' : Setting κ ω} {absolute : Seconds} {closer : Opcode}
  {entries : List NodeId} {f : Failure}

omit [Named κ] in
theorem run_closeScope_cons {opener : NodeId} {rest : List NodeId}
    (hs : c.scopes.entries = opener :: rest) (closer : Opcode) :
    (closeScope closer : ChainRun κ ω α NodeId).run c =
      .done (.ok opener, { c with scopes := ⟨rest⟩ }) := by
  have hpop : c.scopes.pop? = some (opener, ⟨rest⟩) := by rw [Scopes.pop?, hs]
  simp only [closeScope, run_bind, run_chain, Script.bind, hpop, run_set, run_pure]

omit [Named κ] in
theorem run_closeScope_nil (hs : c.scopes.entries = []) (closer : Opcode) :
    (closeScope closer : ChainRun κ ω α NodeId).run c = .done (.error (.emptyScope c.name closer), c) := by
  have hpop : c.scopes.pop? = none := by rw [Scopes.pop?, hs]
  simp only [closeScope, run_bind, run_chain, Script.bind, hpop, run_throw]

/-- A closer that cannot end the block on top takes it off all the same. -/
theorem run_dispatch_fault {id : NodeId} {here : Node κ ω α} (hn : c.nodes[id]? = some here)
    (hk : here.command.opcode.kind = .closer)
    (hf : c.fault? here.command.opcode c.scopes.entries = some f) :
    (dispatch act self absolute id).run c =
      .done (.error f, { c with scopes := ⟨c.scopes.entries.tail⟩ }) := by
  obtain ⟨goOn, hrun, hgo⟩ := closer_form act self absolute hn hk
  rw [hrun, run_bind]
  cases hs : c.scopes.entries with
  | nil =>
    rw [hs] at hf
    cases hf
    rw [run_closeScope_nil hs, List.tail_nil, ← hs]
    rfl
  | cons opener rest =>
    rw [hs] at hf
    obtain ⟨code, hcode, hne⟩ := Option.bind_eq_some_iff.mp hf
    obtain ⟨n, hnode, rfl⟩ := Option.map_eq_some_iff.mp hcode
    have hother : n.command.opcode.closer? ≠ some here.command.opcode := by
      intro hsame
      rw [if_pos hsame] at hne
      cases hne
    rw [if_neg hother] at hne
    cases hne
    obtain ⟨hsame, -⟩ | ⟨-, hmismatch⟩ := hgo opener n c (fixed?_of_node hnode rfl)
    · exact absurd hsame hother
    · have hpopped : ({ c with scopes := ⟨rest⟩ } : Chain κ ω α).nodes[opener]? = some n := hnode
      rw [run_closeScope_cons hs]
      simp only [Script.bind, run_bind, run_node_of hpopped, hmismatch]
      rfl

theorem triple_dispatch_match {id : NodeId} {here : Node κ ω α} (hn : c.nodes[id]? = some here)
    (hk : here.command.opcode.kind = .closer)
    (hf : c.fault? here.command.opcode c.scopes.entries = none) :
    Triple self (· = c) (dispatch act self absolute id) (fun flow _ => flow ≠ .suspend)
      fun _ _ => False := by
  obtain ⟨goOn, hrun, hgo⟩ := closer_form act self absolute hn hk
  intro c' answer d hc hr
  rw [hc, hrun, run_bind] at hr
  cases hs : c.scopes.entries with
  | nil =>
    rw [hs] at hf
    cases hf
  | cons opener rest =>
    rw [run_closeScope_cons hs] at hr
    refine (triple_node fun n hnode => ?_ : Triple self (· = { c with scopes := ⟨rest⟩ }) _
      (fun flow _ => flow ≠ Flow.suspend) fun _ _ => False) _ answer d rfl hr
    rw [hs, fault?, opcode?] at hf
    have hsame : n.command.opcode.closer? = some here.command.opcode := by
      by_contra hother
      have hnode' : c.nodes[opener]? = some n := hnode
      rw [hnode', Option.map_some, Option.bind_some, if_neg hother] at hf
      cases hf
    obtain ⟨-, hquiet⟩ | ⟨hother, -⟩ := hgo opener n { c with scopes := ⟨rest⟩ }
      (fixed?_of_node hnode rfl)
    · refine hquiet.imp (fun _ hc => hc ▸ .refl _) ?_ fun _ _ h => h.2
      rintro _ _ ⟨-, rfl | rfl⟩
      · rintro ⟨⟩
      · rintro ⟨⟩
    · exact absurd hsame hother

omit [Named κ] in
theorem run_step_live (h : c.Live) (fuel : Nat) :
    (step act (fuel + 1) self absolute).run c = (do
      if ← round act self absolute then rounds act self absolute fuel : ChainRun κ ω α Unit).run c := by
  rw [step, run_bind, run_start, h.opening]
  rfl

theorem outcome_update_fault (h : c.Jams closer entries) (hu : c.Undisturbed self σ)
    (hf : c.fault? closer entries = some f) (fuel : Nat) (delta : Seconds) :
    (Chain.behaviour act (fuel + 1) (.update delta absolute) self c).run self σ =
      (.ok (.error f, { c with scopes := ⟨entries.tail⟩ }),
        ⟨σ.scene, (firstHolds c.interrupts σ.world).2⟩) := by
  obtain ⟨id, here, hcur, hn, rfl⟩ := currentOpcode?_eq_some h.cursor
  obtain rfl := h.scopes
  rw [Chain.behaviour, run_step_live h.live, run_bind, Script.run_bind, outcome_round hu hcur, turn,
    run_bind, run_dispatch_fault hn h.kind hf]
  rfl

theorem round_of_match (h : c.Jams closer entries) (hu : c.Undisturbed self σ)
    (hf : c.fault? closer entries = none) {answer : Except Failure Bool}
    (hr : ((round act self absolute).run c).run self σ = (.ok (answer, d), σ')) : answer = .ok true := by
  obtain ⟨id, here, hcur, hn, rfl⟩ := currentOpcode?_eq_some h.cursor
  obtain rfl := h.scopes
  rw [outcome_round hu hcur] at hr
  have hturn : Triple self (· = c) (turn act self absolute id) (fun goesOn _ => goesOn = true)
      fun _ _ => False := by
    refine triple_bind (triple_dispatch_match hn h.kind hf) fun flow => ?_
    cases flow with
    | suspend => exact fun _ _ _ hne => absurd rfl hne
    | jump target =>
      exact triple_bind (Q := fun _ _ => True) (triple_modify fun _ _ => trivial)
        fun _ => triple_pure fun _ _ => rfl
    | advance | jumpPast target =>
      exact triple_of fun base _ => triple_leave_moveAfter.post fun _ _ h => h.1
  have hends := hturn c answer d rfl ⟨_, σ', hr⟩
  cases answer with
  | ok goesOn => exact congrArg Except.ok hends
  | error g => exact hends.elim

omit [Named κ] in
theorem isClosing_of_opening (ho : c.opening = .error f) : f.isClosing = false := by
  obtain ⟨-, rfl⟩ | ⟨-, -, hr⟩ := opening_eq_error_iff.mp ho
  · rfl
  · obtain ⟨_, _, rfl⟩ := resolveJumps_error_iff.mp hr
    rfl

theorem triple_settle_live {id : NodeId} {flow : Flow} {E : Failure → Chain κ ω α → Prop} :
    Triple self Chain.Live (settle id flow) (fun _ => Chain.Live) E := by
  refine triple_of fun base hbase => ?_
  cases flow with
  | suspend => exact triple_pure fun _ hc => hc ▸ hbase
  | jump target =>
    refine triple_bind (Q := fun _ => Chain.Live) (triple_modify ?_) fun _ => triple_pure fun _ hc => hc
    rintro _ rfl
    exact ⟨hbase.started, hbase.finished, hbase.resolved⟩
  | advance | jumpPast target =>
    refine triple_leave_moveAfter.post ?_
    rintro _ _ ⟨-, c, ⟨ha, -⟩, rfl⟩
    have hl := ha.live hbase
    exact ⟨hl.started, hl.finished, hl.resolved⟩

/-- What a round makes of a chain that can go on. If it fails because of a closer, the closer has met a
block that it cannot end, and has taken it off, unless the action of a call has raised the failure. -/
theorem triple_round_live : Triple self (fun c => c = base ∧ base.Live) (round act self absolute)
    (fun goesOn c => goesOn = true → c.Live) fun f c => f.isClosing = true →
      Blames act self f c ∨ Alike base c ∧ ∃ closer, c.Jams closer base.scopes.entries.tail ∧
        base.fault? closer base.scopes.entries = some f := by
  refine triple_round_of (fun _ _ => nofun) (fun _ _ => nofun) (fun _ _ _ _ => nofun) ?_
  rintro _ id here ⟨rfl, hl⟩ hcur hn
  refine triple_bind ((dispatch_spec absolute hn).imp (fun _ h => h) (fun _ _ h => h.1.live hl) ?_)
    fun flow => triple_settle_live.post fun _ _ h _ => h
  rintro f c ⟨ha, hb⟩ hclosing
  have hcode : c.currentOpcode? = some here.command.opcode := by
    rw [ha.currentOpcode?, currentOpcode?, hcur, Option.bind_some, opcode?, hn, Option.map_some]
  cases hb with
  | mild hm _ => exact absurd (hm.symm.trans (Failure.isScope_of_isClosing hclosing)) nofun
  | raised hcall hans _ => exact .inl ⟨_, ha.currentCommand?_call hcur hn hcall, hans⟩
  | empty hk he hs =>
    refine .inr ⟨ha, _, ⟨ha.live hl, hcode, hk, ?_⟩, ?_⟩
    · rw [hs, he]; rfl
    · rw [he]; rfl
  | mismatch hk ho hne hs =>
    refine .inr ⟨ha, _, ⟨ha.live hl, hcode, hk, ?_⟩, ?_⟩
    · rw [hs]; rfl
    · rw [hs, fault?, ho, Option.bind_some, if_neg hne]

theorem triple_pace_live (n : Nat) {E : Failure → Chain κ ω α → Prop} (he : ∀ f c, E f c) :
    Triple self Chain.Live (pace act self absolute n) (fun goesOn c => goesOn = true → c.Live) E := by
  induction n with
  | zero => exact triple_pure fun _ hc _ => hc
  | succ n ih =>
    refine triple_bind (Q := fun goesOn c => goesOn = true → c.Live) ?_ fun goesOn => ?_
    · exact triple_of fun base hbase => triple_round_live.imp (fun _ hc => ⟨hc, hbase⟩)
        (fun _ _ h => h) fun f c _ => he f c
    · cases goesOn with
      | true => exact ih.weaken fun _ hc => hc rfl
      | false => exact triple_pure fun _ _ => nofun

end ChainRun

def Callback.isAside : Callback → Bool
  | update .. | finish | detach => false
  | _ => true

section After

variable [Named κ] {act : α → Caller → Script κ ω (Except Failure Unit)} {c d d' : Chain κ ω α}
  {closer : Opcode} {entries : List NodeId}

/-- A chain this many undisturbed steps later, with any other callbacks in between that do not end
it. -/
inductive Chain.After (act : α → Caller → Script κ ω (Except Failure Unit)) (c : Chain κ ω α) :
    Nat → Chain κ ω α → Prop
  | here : After act c 0 c
  | step {n : Nat} {d d' : Chain κ ω α} (fuel : Nat) (delta absolute : Seconds) (caller : Caller)
      {σ σ' : Setting κ ω} {answer : Except Failure Unit} (h : After act c n d)
      (hu : d.Undisturbed caller σ)
      (hr : (Chain.behaviour act fuel (.update delta absolute) caller d).run caller σ =
        (.ok (answer, d'), σ')) : After act c (n + 1) d'
  | aside {n : Nat} {d d' : Chain κ ω α} (fuel : Nat) (callback : Callback) (caller : Caller)
      {answer : Except Failure Unit} (h : After act c n d) (hc : callback.isAside = true)
      (hr : (Chain.behaviour act fuel callback caller d).Answers caller (answer, d')) :
      After act c n d'

theorem Chain.Jams.aside (h : c.Jams closer entries) {fuel : Nat} {callback : Callback}
    {caller : Caller} {answer : Except Failure Unit} (hc : callback.isAside = true)
    (hr : (Chain.behaviour act fuel callback caller c).Answers caller (answer, d)) :
    ∃ attached, d = { c with attached } := by
  obtain ⟨σ, σ', hr⟩ := hr
  cases callback with
  | init =>
    cases hr
    exact ⟨true, rfl⟩
  | attach | remove =>
    cases hr
    exact ⟨c.attached, rfl⟩
  | message m =>
    obtain ⟨id, here, hcur, hn, rfl⟩ := currentOpcode?_eq_some h.cursor
    have hdeaf : here.command.opcode ≠ .waitForMessage ∧ here.command.opcode ≠ .waitForMessageWhere :=
      ⟨fun he => absurd (he ▸ h.kind) nofun, fun he => absurd (he ▸ h.kind) nofun⟩
    have hstill : (ChainRun.notice m : ChainRun κ ω α Unit).run c = .done (.ok (), c) := by
      simp only [ChainRun.notice, ChainRun.run_bind, ChainRun.run_chain, Script.bind, hcur,
        ChainRun.run_node_of hn, hdeaf, decide_false, Bool.or_self, Bool.false_and]
      rfl
    rw [Chain.behaviour, hstill] at hr
    cases hr
    exact ⟨c.attached, rfl⟩
  | update | finish | detach => cases hc

theorem Chain.Jams.step (h : c.Jams closer entries) {fuel : Nat} {delta absolute : Seconds}
    {caller : Caller} {σ σ' : Setting κ ω} {answer : Except Failure Unit}
    (hu : c.Undisturbed caller σ) (hf : (c.fault? closer entries).isSome)
    (hr : (Chain.behaviour act fuel (.update delta absolute) caller c).run caller σ =
      (.ok (answer, d), σ')) : d = { c with scopes := ⟨entries.tail⟩ } := by
  obtain ⟨f, hf⟩ := Option.isSome_iff_exists.mp hf
  cases fuel with
  | zero =>
    rw [Chain.behaviour, ChainRun.step, ChainRun.run_bind, run_start, h.live.opening] at hr
    cases hr
  | succ fuel =>
    rw [ChainRun.outcome_update_fault h hu hf] at hr
    cases hr
    rfl

theorem Chain.After.jams {n : Nat} (ha : After act c n d) (h : c.Jams closer entries)
    (hf : ∀ k < n, (c.fault? closer (entries.drop k)).isSome) :
    d.Jams closer (entries.drop n) ∧ d.current = c.current ∧
      ∀ l, d.fault? closer l = c.fault? closer l := by
  -- By induction on the callbacks: as far as no block of the closer's kind is on top, every step takes one
  -- off.
  induction ha with
  | here => exact ⟨h, rfl, fun _ => rfl⟩
  | @step n d d' fuel delta absolute caller σ σ' answer _ hu hr ih =>
    obtain ⟨hd, hcur, hsame⟩ := ih fun k hk => hf k (Nat.lt_succ_of_lt hk)
    obtain rfl := hd.step hu (by rw [hsame]; exact hf n n.lt_succ_self) hr
    have ha := Alike.scopes d ⟨(entries.drop n).tail⟩
    refine ⟨⟨ha.live hd.live, ha.currentOpcode?.trans hd.cursor, hd.kind, List.tail_drop⟩, hcur, ?_⟩
    exact fun l => (ha.fault? closer l).trans (hsame l)
  | aside fuel callback caller _ hc hr ih =>
    obtain ⟨hd, hcur, hsame⟩ := ih hf
    obtain ⟨attached, rfl⟩ := hd.aside hc hr
    exact ⟨⟨⟨hd.live.started, hd.live.finished, hd.live.resolved⟩, hd.cursor, hd.kind, hd.scopes⟩,
      hcur, fun l => by rw [← hsame l]; cases l <;> rfl⟩

/-- What comes of a chain whose cursor is on this closer. As long as no block of the closer's kind is on
top, each undisturbed step reports what is wrong with the top and takes it off. Once there is one on
top, the next step does not fail at the closer but goes on. -/
def Chain.Unwinds (act : α → Caller → Script κ ω (Except Failure Unit)) (closer : Opcode)
    (c : Chain κ ω α) : Prop :=
  ∀ n d, After act c n d → (∀ k < n, (c.fault? closer (c.scopes.entries.drop k)).isSome) →
    d.current = c.current ∧ d.scopes.entries = c.scopes.entries.drop n ∧
      ∀ caller σ, d.Undisturbed caller σ → ∀ delta absolute,
        (∀ f, c.fault? closer d.scopes.entries = some f → ∀ fuel, ∃ d' σ',
          (Chain.behaviour act (fuel + 1) (.update delta absolute) caller d).run caller σ =
            (.ok (.error f, d'), σ') ∧ d'.scopes.entries = d.scopes.entries.tail) ∧
        (c.fault? closer d.scopes.entries = none → ∀ answer d' σ',
          ((ChainRun.round act caller absolute).run d).run caller σ = (.ok (answer, d'), σ') →
            answer = .ok true)

def Chain.Persists (act : α → Caller → Script κ ω (Except Failure Unit)) (f : Failure)
    (c : Chain κ ω α) : Prop :=
  ∀ n d, After act c n d → ∀ caller σ, d.Undisturbed caller σ → ∀ fuel delta absolute, ∃ d' σ',
    (Chain.behaviour act (fuel + 1) (.update delta absolute) caller d).run caller σ =
      (.ok (.error f, d'), σ')

theorem Chain.Unwinds.persists (h : c.Unwinds act closer) (hs : c.scopes.entries = []) :
    c.Persists act (.emptyScope c.name closer) := by
  intro n d ha caller σ hu fuel delta absolute
  obtain ⟨-, hd, hsteps⟩ := h n d ha fun k _ => by rw [hs, List.drop_nil]; rfl
  rw [hs, List.drop_nil] at hd
  obtain ⟨d', σ', hr, -⟩ := (hsteps caller σ hu delta absolute).1 _ (by rw [hd]; rfl) fuel
  exact ⟨d', σ', hr⟩

theorem Chain.Jams.unwinds (h : c.Jams closer entries) : c.Unwinds act closer := by
  intro n d ha hf
  obtain rfl := h.scopes
  obtain ⟨hd, hcur, hsame⟩ := ha.jams h hf
  refine ⟨hcur, hd.scopes, fun caller σ hu delta absolute => ⟨fun f hfault fuel => ?_, fun hfault => ?_⟩⟩
  · rw [hd.scopes, ← hsame] at hfault
    refine ⟨_, _, ChainRun.outcome_update_fault hd hu hfault fuel delta, ?_⟩
    rw [hd.scopes]
  · rw [hd.scopes, ← hsame] at hfault
    exact fun answer d' σ' hr => ChainRun.round_of_match hd hu hfault hr

end After

variable [Named κ]

/-- A step that fails because of a closer has met the closer with a block on the stack that it cannot
end, or with none, and has taken that block off; or the action of a call has raised the failure. In
the steps that follow the blocks further out count one after the other, and the chain goes on behind
its error as soon as one of the closer's kind is on top. Only an empty stack is reported for good. -/
theorem scope_fault_history (act : α → Caller → Script κ ω (Except Failure Unit))
    {c c' : Chain κ ω α} {fuel : Nat} {delta absolute : Seconds} {self : Caller} {f : Failure}
    (hr : (Chain.behaviour act fuel (.update delta absolute) self c).Answers self (.error f, c'))
    (hf : f.isClosing = true) :
    Blames act self f c' ∨ ∃ n base closer,
      ((start >>= fun _ => pace act self absolute n).run c).Answers self (.ok true, base) ∧
        base.current = c'.current ∧ c'.currentOpcode? = some closer ∧
        c'.fault? closer base.scopes.entries = some f ∧
        c'.scopes.entries = base.scopes.entries.tail ∧ c'.Unwinds act closer ∧
        (base.scopes.entries = [] → c'.Persists act f) := by
  obtain ⟨σ, σ', hr⟩ := hr
  rw [Chain.behaviour, step, run_bind, Script.run_bind, run_start] at hr
  cases ho : c.opening with
  | error g =>
    rw [ho] at hr
    cases hr
    exact absurd (hf.symm.trans (isClosing_of_opening ho)) (by rintro ⟨⟩)
  | ok d =>
    rw [ho] at hr
    obtain ⟨n, base, σ₁, hpace, hlast⟩ := exists_of_rounds_error hr
    have hlive : base.Live :=
      triple_pace_live n (E := fun _ _ => True) (fun _ _ => trivial) d (.ok true) base
        (live_opening ho).1 ⟨σ, σ₁, hpace⟩ rfl
    refine (triple_round_live _ (.error f) c' ⟨rfl, hlive⟩ ⟨σ₁, σ', hlast⟩ hf).imp id ?_
    rintro ⟨ha, closer, hjams, hfault⟩
    rw [← ha.fault?] at hfault
    refine ⟨n, base, closer, ⟨σ, σ₁, ?_⟩, ha.current.symm, hjams.cursor, hfault, hjams.scopes,
      hjams.unwinds, fun hs => ?_⟩
    · rw [run_bind, Script.run_bind, run_start, ho]
      exact hpace
    · rw [hs] at hfault
      cases hfault
      exact hjams.unwinds.persists (by rw [hjams.scopes, hs]; rfl)

/-- A chain whose inner loop is closed as if it were the outer one. -/
def slip : Chain Probe Nat Unit :=
  [.beginRepeat ⟨.value 1, none⟩ false, .beginWhile fun w => (.ok true, w), .endRepeat,
    .call ()].foldl Chain.append { name := "slip" }

def tally (_ : Unit) (_ : Caller) : Script Probe Nat (Except Failure Unit) :=
  .consult fun n => .store (n + 1) (.done (.ok ()))

def slipHost : Setting Probe Nat :=
  ⟨((({} : Scene Probe).addEntity "host").2.addComponent ⟨1⟩ {}).2, 0⟩

/-- The first step of the chain closes the inner loop, of another kind, with the end of the outer one. -/
theorem scope_fault_history_slip : ∃ c' : Chain Probe Nat Unit,
    (Chain.behaviour tally 9 (.update 1 1) ⟨⟨1⟩, ⟨1⟩⟩ slip).Answers ⟨⟨1⟩, ⟨1⟩⟩
        (.error (.scopeMismatch "slip" .beginWhile .endRepeat), c') ∧
      (Failure.scopeMismatch "slip" .beginWhile .endRepeat).isClosing = true ∧
        c'.scopes.entries = [0] ∧ c'.Unwinds tally .endRepeat := by
  have hstep : ∃ c' : Chain Probe Nat Unit,
      (Chain.behaviour tally 9 (.update 1 1) ⟨⟨1⟩, ⟨1⟩⟩ slip).Answers ⟨⟨1⟩, ⟨1⟩⟩
          (.error (.scopeMismatch "slip" .beginWhile .endRepeat), c') ∧
        c'.scopes.entries = [0] ∧ c'.currentOpcode? = some .endRepeat :=
    ⟨_, ⟨slipHost, _, rfl⟩, rfl, rfl⟩
  obtain ⟨c', hr, hs, hcode⟩ := hstep
  refine ⟨c', hr, rfl, hs, ?_⟩
  obtain ⟨action, hcall, -⟩ | ⟨n, base, closer, -, -, hcursor, -, -, hunwinds, -⟩ :=
    scope_fault_history tally hr rfl
  · cases hcode.symm.trans (currentOpcode?_of_command hcall)
  · cases hcode.symm.trans hcursor
    exact hunwinds

def slipTwice : Script Probe Nat (Except Failure Unit × Bool × Except Failure Unit × Bool) := do
  let (first, c) ← Chain.behaviour tally 9 (.update 1 1) ⟨⟨1⟩, ⟨1⟩⟩ slip
  let stopped := (← Script.scene).isDone ⟨1⟩
  let (second, d) ← Chain.behaviour tally 9 (.update 1 2) ⟨⟨1⟩, ⟨1⟩⟩ c
  return (first, stopped || !c.interrupts.isEmpty, second, d.finished)

/-- After its error the chain does what is left of it, which is one call, and completes: the second step
finds the outer loop on top of the stack. -/
theorem scope_fault_forgotten :
    (slipTwice.run ⟨⟨1⟩, ⟨1⟩⟩ slipHost).1 =
        .ok (.error (.scopeMismatch "slip" .beginWhile .endRepeat), false, .ok (), true) ∧
      (slipTwice.run ⟨⟨1⟩, ⟨1⟩⟩ slipHost).2.world = 1 := by
  decide +kernel

end FrameChain
