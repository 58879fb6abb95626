import FrameChain.Proofs.Chain.Links
import FrameChain.Proofs.Structured.Rounds

set_option autoImplicit false

namespace FrameChain

open Chain

variable {κ ω α τ : Type}

def Chain.released (c : Chain κ ω α) : Chain κ ω α :=
  { c with scratch := {}, scopes := {}, current := none }

/-- The place of a running chain: a cut through its listing. -/
def Chain.Stands (c : Chain κ ω α) (l : List Entry) : Prop :=
  ∃ before rest, l = before ++ rest ∧ c.current = rest.head?.map Prod.fst ∧
    c.scopes.entries = openLoops [] before

def Chain.currentCommand? (c : Chain κ ω α) : Option (Command κ ω α) :=
  c.current.bind fun id => c.nodes[id]?.map (·.command)

theorem Chain.Alike.currentCommand?_call {c c' : Chain κ ω α} {id : NodeId} {here : Node κ ω α}
    {action : α} (h : Alike c c') (hcur : c.current = some id) (hn : c.nodes[id]? = some here)
    (hcall : here.command = .call action) : c'.currentCommand? = some (.call action) := by
  have hfix : c'.fixed? id = some (Command.call action : Command κ ω α).fixed := by
    rw [h.fixed?, Chain.fixed?, hn, Option.map_some, hcall]
  obtain ⟨n, hnode, hcommand⟩ := Option.map_eq_some_iff.mp hfix
  rw [currentCommand?, h.current, hcur, Option.bind_some, hnode, Option.map_some,
    Command.eq_call hcommand]

structure Placed (l : List Entry) (c : Chain κ ω α) : Prop where
  listing : c.listing = l
  threaded : c.Threaded
  fresh : c.started = false → c.scopes.entries = []
  resolved : c.started = true → c.jumpsStale = false
  reaches : c.jumpsStale = false → ∀ e ∈ l, ∀ t, c.jump? e.1 = some t → Reaches l e.1 t
  stands : c.isRunning = true → c.Stands l

theorem isRunning_started {c : Chain κ ω α} (h : c.isRunning = true) : c.started = true :=
  ((Bool.and_eq_true _ _).mp h).1

theorem Chain.Alike.isRunning {c c' : Chain κ ω α} (h : Alike c c') : c'.isRunning = c.isRunning := by
  rw [Chain.isRunning, Chain.isRunning, h.started, h.finished]

/-- Two cuts through a listing before the same command are one cut. -/
theorem cut_unique {l before before' rest rest' : List Entry} {e e' : Entry}
    (hd : (l.map Prod.fst).Nodup) (h : l = before ++ e :: rest) (h' : l = before' ++ e' :: rest')
    (he : e.1 = e'.1) : before = before' := by
  induction before generalizing l before' with
  | nil =>
    cases before' with
    | nil => rfl
    | cons b before' =>
      obtain ⟨rfl, rfl⟩ := List.cons.inj (h.symm.trans h')
      subst h
      simp [he] at hd
  | cons b before ih =>
    cases before' with
    | nil =>
      obtain ⟨rfl, rfl⟩ := List.cons.inj (h.symm.trans h')
      subst h
      simp [he] at hd
    | cons b' before' =>
      obtain ⟨rfl, ht⟩ := List.cons.inj (h.symm.trans h')
      subst h
      exact congrArg _ (ih (List.nodup_cons.mp hd).2 rfl ht)

namespace Placed

variable {l before rest : List Entry} {e : Entry} {c c' : Chain κ ω α}

theorem next (h : Placed l c) (hl : l = before ++ e :: rest) :
    c.next? e.1 = rest.head?.map Prod.fst :=
  h.threaded.next (h.listing.trans hl)

theorem move (h : Placed l c) (hrun : c.isRunning = true) (ha : Alike c c')
    {current : Option NodeId} (hst : { c' with current }.Stands l) :
    Placed l { c' with current } where
  listing := (listing_congr ha.layout ha.head).trans h.listing
  threaded := h.threaded.congr ha.layout ha.head
  fresh hs := absurd ((ha.started.trans (isRunning_started hrun)).symm.trans hs) nofun
  resolved _ := ha.jumpsStale.trans (h.resolved (isRunning_started hrun))
  reaches hstale e he t ht := by
    refine h.reaches (ha.jumpsStale.symm.trans hstale) e he t ?_
    rw [jump?_eq_jumps] at ht ⊢
    exact (congrArg (fun jumps => jumps[e.1]?.join) ha.jumps).symm.trans ht
  stands _ := hst

theorem stay (h : Placed l c) (hrun : c.isRunning = true) (ha : Alike c c')
    (hs : c'.scopes = c.scopes) : Placed l c' := by
  obtain ⟨before, rest, hl, hc, hsc⟩ := h.stands hrun
  have hst : ({ c' with current := c'.current } : Chain κ ω α).Stands l :=
    ⟨before, rest, hl, ha.current.trans hc, (congrArg Scopes.entries hs).trans hsc⟩
  exact h.move hrun ha hst

theorem ended (h : Placed l c) : Placed l { c.released with finished := true } where
  listing := h.listing
  threaded := h.threaded.congr rfl rfl
  fresh _ := rfl
  resolved := h.resolved
  reaches := h.reaches
  stands hr := by simp [isRunning] at hr

theorem unseen (h : Placed l c) (scratch : Scratch) (attached : Bool) :
    Placed l { c with scratch, attached } where
  listing := h.listing
  threaded := h.threaded.congr rfl rfl
  fresh := h.fresh
  resolved := h.resolved
  reaches := h.reaches
  stands := h.stands

theorem start (h : Placed l c) (hfresh : c.started = false) (hstale : c.jumpsStale = false) :
    Placed l { c with started := true, current := c.head } where
  listing := h.listing
  threaded := h.threaded.congr rfl rfl
  fresh hs := absurd hs nofun
  resolved _ := hstale
  reaches := h.reaches
  stands _ := ⟨[], l, rfl, by rw [← h.listing, ← h.threaded.head], h.fresh hfresh⟩

theorem resolve (h : Placed l c) (hr : Resolved c c') :
    Placed l c' ∧ c'.finished = c.finished ∧ c'.jumpsStale = false := by
  obtain ⟨hlayout, hothers, hreaches⟩ := hr
  rw [h.listing] at hreaches
  obtain ⟨name, nodes, head, tail, current, started, attached, finished, stale, scopes, scratch,
    interrupts⟩ := c
  obtain ⟨name', nodes', head', tail', current', started', attached', finished', stale', scopes',
    scratch', interrupts'⟩ := c'
  cases hothers
  exact ⟨⟨(listing_congr hlayout rfl).trans h.listing, h.threaded.congr hlayout rfl, h.fresh,
    fun _ => rfl, fun _ => hreaches, h.stands⟩, rfl, rfl⟩

theorem scopes_of_end {depth : Nat} (h : Placed l c) (hn : Nested Prod.snd depth l)
    (hrun : c.isRunning = true) (hc : c.current = none) : c.scopes.entries = [] := by
  obtain ⟨before, rest, rfl, hcur, hs⟩ := h.stands hrun
  cases rest with
  | nil =>
    rw [List.append_nil] at hn
    rw [hs, hn.openLoops_eq]
  | cons e rest => exact absurd (hc.symm.trans hcur) nofun

theorem opener_of_closer {depth : Nat} (h : Placed l c) (hn : Nested Prod.snd depth l)
    (hl : l = before ++ e :: rest) (hs : c.scopes.entries = openLoops [] before)
    (hk : e.2.kind = .closer) :
    ∃ outer body, ∃ opener : Entry, before = outer ++ opener :: body ∧
      opener.2.closer? = some e.2 ∧ c.opcode? opener.1 = some opener.2 ∧
        c.scopes.entries = opener.1 :: openLoops [] outer := by
  subst hl
  obtain ⟨outer, body, opener, d, rfl, hc, hb⟩ := (hn.around rfl).closes e rfl hk
  refine ⟨outer, body, opener, rfl, hc, ?_, ?_⟩
  · exact opcode?_of_mem_listing (h.listing ▸ by simp)
  · rw [hs, openLoops_append, openLoops_cons, Opcode.track_opener _ _ (Opcode.kind_opener hc),
      hb.openLoops_eq]

theorem forward (h : Placed l c) (hrun : c.isRunning = true) (hl : l = before ++ e :: rest)
    (hs : c.scopes.entries = openLoops [] before) (ha : Alike c c')
    (hsc : c'.scopes.entries = e.2.track e.1 c.scopes.entries) :
    Placed l { c' with current := c'.next? e.1 } := by
  refine h.move hrun ha ⟨before ++ [e], rest, ?_, ?_, ?_⟩
  · rw [hl, List.append_assoc, List.singleton_append]
  · rw [next?_eq_layout, ha.layout, ← next?_eq_layout, h.next hl]
  · rw [openLoops_append, ← hs]
    exact hsc

theorem back {depth : Nat} {opener : NodeId} (h : Placed l c) (hn : Nested Prod.snd depth l)
    (hrun : c.isRunning = true) (hl : l = before ++ e :: rest)
    (hs : c.scopes.entries = openLoops [] before) (hk : e.2.kind = .closer) (ha : Alike c c')
    (hsc : c.scopes.entries = opener :: c'.scopes.entries) :
    Placed l { c' with current := some opener } := by
  obtain ⟨outer, body, e', hb, -, -, htop⟩ := h.opener_of_closer hn hl hs hk
  obtain ⟨rfl, hrest⟩ := List.cons.inj (hsc.symm.trans htop)
  refine h.move hrun ha ⟨outer, e' :: (body ++ e :: rest), ?_, rfl, hrest⟩
  rw [hl, hb, List.append_assoc, List.cons_append]

theorem past {target : NodeId} (h : Placed l c) (hrun : c.isRunning = true)
    (hl : l = before ++ e :: rest) (hs : c.scopes.entries = openLoops [] before) (ha : Alike c c')
    (hj : c.jump? e.1 = some target) (hsc : c'.scopes = c.scopes) :
    Placed l { c' with current := c'.next? target } := by
  obtain ⟨outer, between, after, op, op', d, hl', hop, hop', hb⟩ :=
    h.reaches (h.resolved (isRunning_started hrun)) e (by simp [hl]) target hj
  have hd : (l.map Prod.fst).Nodup := h.listing ▸ h.threaded.distinct
  obtain rfl : before = outer := cut_unique hd hl hl' rfl
  refine h.move hrun ha ⟨before ++ (e.1, op) :: (between ++ [(target, op')]), after, ?_, ?_, ?_⟩
  · rw [hl']
    simp
  · have hl'' : l = (before ++ (e.1, op) :: between) ++ (target, op') :: after := by
      rw [hl']
      simp
    rw [next?_eq_layout, ha.layout, ← next?_eq_layout, h.next hl'']
  · change c'.scopes.entries = _
    rw [hsc, hs, openLoops_append, openLoops_cons, openLoops_append, openLoops_cons, openLoops_nil,
      Opcode.track_branch _ _ hop, hb.openLoops_eq, Opcode.track_branch _ _ hop']

end Placed

namespace ChainRun

variable [Named κ] {act : α → Caller → Script κ ω (Except Failure Unit)} {self : Caller}
  {l : List Entry} {depth : Nat}

theorem triple_of {P : Chain κ ω α → Prop} {t : ChainRun κ ω α τ} {Q : τ → Chain κ ω α → Prop}
    {E : Failure → Chain κ ω α → Prop} (h : ∀ base, P base → Triple self (· = base) t Q E) :
    Triple self P t Q E :=
  fun c answer c' hc hr => h c hc c answer c' rfl hr

/-- The cursor is on a call whose action answered with the failure. -/
def Blames (act : α → Caller → Script κ ω (Except Failure Unit)) (self : Caller) (f : Failure)
    (c : Chain κ ω α) : Prop :=
  ∃ action, c.currentCommand? = some (.call action) ∧ (act action self).Answers self (.error f)

/-- A failure leaves a chain in its place, and is about the loops only if an action says so. -/
def Fails (act : α → Caller → Script κ ω (Except Failure Unit)) (self : Caller) (l : List Entry)
    (f : Failure) (c : Chain κ ω α) : Prop :=
  Placed l c ∧ (f.isScope = true → Blames act self f c)

section Round

variable {base : Chain κ ω α} {here : Node κ ω α} {id : NodeId}

theorem triple_leave {E : Failure → Chain κ ω α → Prop} :
    Triple self (Calm base) (leave id) (fun _ => Calm base) E := by
  refine triple_modify fun c hc => ⟨hc.1.trans ⟨?_, ?_, rfl⟩, hc.2⟩
  · refine layout_modifyNode c id fun n _ => ?_
    split
    · rfl
    · simp only [Node.place, Command.fixed_reset]
  · refine jumps_modifyNode c id fun n => ?_
    split <;> rfl

theorem triple_leave_moveAfter {target : NodeId} {E : Failure → Chain κ ω α → Prop} :
    Triple self (· = base) (do
      leave id
      moveAfter target
      return true) (fun goesOn c => goesOn = true ∧ ∃ c', Calm base c' ∧
        c = { c' with current := c'.next? target }) E := by
  refine triple_bind triple_leave.ofCalm fun _ => ?_
  refine triple_of fun c hc => triple_bind (Q := fun _ c' => c' = { c with current := c.next? target })
    (triple_node fun n hn => triple_modify ?_) fun _ => triple_pure fun c' hc' => ⟨rfl, c, hc, hc'⟩
  rintro _ rfl
  rw [next?, hn]
  rfl

/-- After a command a well-nested chain stands at another place of its listing. -/
theorem triple_steer {before rest : List Entry} {op : Opcode} {flow : Flow}
    {E : Failure → Chain κ ω α → Prop} (hn : Nested Prod.snd depth l) (h : Placed l base)
    (hrun : base.isRunning = true) (hl : l = before ++ (id, op) :: rest)
    (hs : base.scopes.entries = openLoops [] before) (hhere : base.nodes[id]? = some here)
    (hop : here.command.opcode = op) :
    Triple self (fun c => Alike base c ∧ Steers base here id flow c) (settle id flow)
      (fun goesOn c => Placed l c ∧ (goesOn = true → c.isRunning = true)) E := by
  subst hop
  refine triple_of ?_
  rintro c ⟨ha, hsteers⟩
  have hstays : c.isRunning = true := ha.isRunning.trans hrun
  cases hsteers with
  | advance hsc =>
    refine triple_leave_moveAfter.post ?_
    rintro _ _ ⟨rfl, c', ⟨ha', hsc'⟩, rfl⟩
    refine ⟨h.forward hrun hl hs (ha.trans ha') ?_, fun _ => ha'.isRunning.trans hstays⟩
    rw [hsc', hsc]
  | suspend hsc =>
    refine triple_pure ?_
    rintro _ rfl
    exact ⟨h.stay hrun ha hsc, nofun⟩
  | past hb hj hsc =>
    refine triple_leave_moveAfter.post ?_
    rintro _ _ ⟨rfl, c', ⟨ha', hsc'⟩, rfl⟩
    refine ⟨h.past hrun hl hs (ha.trans ha') ?_ (hsc'.trans hsc), fun _ => ha'.isRunning.trans hstays⟩
    rw [jump?, hhere]
    exact hj
  | @back _ opener _ hc hk hsc =>
    refine triple_bind (triple_modify (Q := fun _ c' => c' = { c with current := some opener }) ?_)
      fun _ => triple_pure ?_
    · rintro _ rfl
      rfl
    · rintro _ rfl
      exact ⟨h.back hn hrun hl hs (Opcode.kind_closer hk) ha hsc, fun _ => hstays⟩

theorem fails_of_breaks {before rest : List Entry} {op : Opcode} {f : Failure} {c : Chain κ ω α}
    (hn : Nested Prod.snd depth l) (h : Placed l base) (hrun : base.isRunning = true)
    (hcur : base.current = some id) (hl : l = before ++ (id, op) :: rest)
    (hs : base.scopes.entries = openLoops [] before) (hhere : base.nodes[id]? = some here)
    (hop : here.command.opcode = op) (ha : Alike base c) (hb : Breaks act self base here f c) :
    Fails act self l f c := by
  subst hop
  cases hb with
  | mild hf hsc => exact ⟨h.stay hrun ha hsc, fun hscope => absurd (hf.symm.trans hscope) nofun⟩
  | @raised _ _ action hcall hans hsc =>
    exact ⟨h.stay hrun ha hsc, fun _ => ⟨action, ha.currentCommand?_call hcur hhere hcall, hans⟩⟩
  | empty hk he _ =>
    obtain ⟨_, _, _, _, _, _, htop⟩ := h.opener_of_closer hn hl hs hk
    exact absurd (he.symm.trans htop) nofun
  | mismatch hk ho hne hsc =>
    obtain ⟨_, _, opener, _, hc, hcode, htop⟩ := h.opener_of_closer hn hl hs hk
    obtain ⟨rfl, -⟩ := List.cons.inj (hsc.symm.trans htop)
    obtain rfl := Option.some.inj (ho.symm.trans hcode)
    exact absurd hc hne

theorem triple_isDone {P : Chain κ ω α → Prop} {E : Failure → Chain κ ω α → Prop} (id : ComponentId) :
    Triple self P (isDone id) (fun _ => P) E :=
  triple_bind (triple_script fun _ _ hc => hc) fun _ => triple_pure fun _ hc => hc

theorem triple_scratch {P : Chain κ ω α → Prop} {E : Failure → Chain κ ω α → Prop} :
    Triple self P scratch (fun _ => P) E :=
  triple_chain fun _ hb => triple_pure fun _ hc => hc ▸ hb

theorem triple_release {P : Chain κ ω α → Prop} {E : Failure → Chain κ ω α → Prop} :
    Triple self P release (fun _ c => ∃ c', P c' ∧ c = c'.released) E := by
  have hdrop : Triple self P (modify Chain.released) (fun _ c => ∃ c', P c' ∧ c = c'.released) E :=
    triple_modify fun c hc => ⟨c, hc, rfl⟩
  refine triple_bind triple_scratch fun s => ?_
  cases s.messageKey with
  | some key => exact triple_bind (triple_script fun _ _ hc => hc) fun _ => hdrop
  | none => exact hdrop

theorem triple_complete {P : Chain κ ω α → Prop} {E : Failure → Chain κ ω α → Prop} :
    Triple self P complete (fun _ c => ∃ c', P c' ∧ c = { c'.released with finished := true }) E := by
  refine triple_bind triple_release fun _ => triple_bind (triple_modify ?_)
    fun _ => triple_script fun _ _ hc => hc
  rintro _ ⟨c, hc, rfl⟩
  exact ⟨c, hc, rfl⟩

omit [Named κ] in
theorem run_turn_dangling {c : Chain κ ω α} (hn : c.nodes[id]? = none)
    (act : α → Caller → Script κ ω (Except Failure Unit)) (self : Caller) (absolute : Seconds) :
    (turn act self absolute id).run c = .crash (.dangling id) := by
  simp only [turn, dispatch, node, run_bind, run_chain, Script.bind, hn, run_script]

theorem triple_turn_of {Q : Bool → Chain κ ω α → Prop} {E : Failure → Chain κ ω α → Prop}
    {absolute : Seconds} (h : ∀ here, base.nodes[id]? = some here →
      Triple self (· = base) (turn act self absolute id) Q E) :
    Triple self (· = base) (turn act self absolute id) Q E := by
  cases hn : base.nodes[id]? with
  | some here => exact h here hn
  | none =>
    exact triple_bind (Q := fun _ _ => False)
      (triple_node fun n hn' => absurd (hn.symm.trans hn') nofun) fun _ _ _ _ hc => hc.elim

theorem triple_round_of {P : Chain κ ω α → Prop} {Q : Bool → Chain κ ω α → Prop}
    {E : Failure → Chain κ ω α → Prop} {absolute : Seconds} (hstop : ∀ c, P c → Q false c)
    (hend : ∀ c, P c → Q false { c.released with finished := true })
    (hopen : ∀ c, P c → c.current = none → c.scopes.isEmpty = false →
      E (.unterminatedScope c.name c.scopes.depth) c)
    (hturn : ∀ c id here, P c → c.current = some id → c.nodes[id]? = some here →
      Triple self (· = c) (turn act self absolute id) Q E) :
    Triple self P (round act self absolute) Q E := by
  have hcomplete (base : Chain κ ω α) (hbase : P base) : Triple self (· = base) (do
      complete
      return false) Q E := by
    refine triple_bind triple_complete fun _ => triple_pure ?_
    rintro _ ⟨c, rfl, rfl⟩
    exact hend c hbase
  refine triple_bind (triple_isDone _) fun done => triple_ite (fun _ => triple_pure hstop) fun _ => ?_
  refine triple_chain fun base hbase => ?_
  refine triple_bind (triple_script fun _ _ hc => hc) fun holds =>
    triple_ite (fun _ => hcomplete base hbase) fun _ => ?_
  refine triple_chain ?_
  rintro base rfl
  cases hcur : base.current with
  | none =>
    refine triple_ite (fun hs => ?_) fun _ => hcomplete base hbase
    refine triple_bind (Q := fun _ _ => False) (triple_throw ?_) fun _ => fun _ _ _ hc => hc.elim
    rintro _ rfl
    exact hopen _ hbase hcur (by simpa using hs)
  | some id => exact triple_turn_of fun here hn => hturn base id here hbase hcur hn

/-- A round of a well-nested chain leaves it at a place of its listing. -/
theorem triple_round (absolute : Seconds) (hn : Nested Prod.snd depth l) :
    Triple self (fun c => Placed l c ∧ c.isRunning = true) (round act self absolute)
      (fun goesOn c => Placed l c ∧ (goesOn = true → c.isRunning = true)) (Fails act self l) := by
  refine triple_round_of (fun c hc => ⟨hc.1, by rintro ⟨⟩⟩) (fun c hc => ⟨hc.1.ended, by rintro ⟨⟩⟩) ?_ ?_
  · rintro c ⟨h, hrun⟩ hcur hopen
    rw [Scopes.isEmpty, h.scopes_of_end hn hrun hcur] at hopen
    cases hopen
  · rintro base id here ⟨h, hrun⟩ hsome hhere
    obtain ⟨before, rest, hl, hcur, hs⟩ := h.stands hrun
    cases rest with
    | nil => exact absurd (hsome.symm.trans hcur) (by rintro ⟨⟩)
    | cons e rest =>
      obtain ⟨id', op⟩ := e
      obtain rfl : id = id' := Option.some.inj (hsome.symm.trans hcur)
      have hmem : (id, op) ∈ base.listing := by simp [h.listing, hl]
      have hop : here.command.opcode = op := by
        have hcode := opcode?_of_mem_listing hmem
        rw [opcode?, hhere] at hcode
        exact Option.some.inj hcode
      refine triple_bind ((dispatch_spec absolute hhere).imp (fun _ hc => hc) (fun _ _ hc => hc)
        fun f c hf => fails_of_breaks hn h hrun hsome hl hs hhere hop hf.1 hf.2) fun flow => ?_
      exact triple_steer hn h hrun hl hs hhere hop

end Round

end ChainRun
end FrameChain
