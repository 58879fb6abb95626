import FrameChain.Proofs.Chain.Waits

set_option autoImplicit false

namespace FrameChain

open Chain

variable {κ ω α τ : Type}

namespace Chain

structure Live (c : Chain κ ω α) : Prop where
  started : c.started = true
  finished : c.finished = false
  resolved : c.jumpsStale = false

variable {c d : Chain κ ω α}

theorem Live.opening (h : c.Live) : c.opening = .ok c := by
  rw [Chain.opening, h.finished, h.resolved]
  change Except.ok (if c.started then c else _) = _
  rw [if_pos h.started]

theorem Live.alike (h : c.Live) (hd : Alike c d) : d.Live :=
  ⟨hd.started.trans h.started, hd.finished.trans h.finished, hd.jumpsStale.trans h.resolved⟩

theorem Live.moved (h : c.Live) (current : Option NodeId) : { c with current }.Live :=
  ⟨h.started, h.finished, h.resolved⟩

theorem live_opening (ho : c.opening = .ok d) : d.Live ∧ d.scratch = c.scratch := by
  have hbegun (r : Chain κ ω α) (hf : r.finished = false) (hj : r.jumpsStale = false) :
      Live (if r.started then r else { r with started := true, current := r.head }) ∧
        (if r.started then r else { r with started := true, current := r.head }).scratch =
          r.scratch := by
    cases hs : r.started
    · exact ⟨⟨rfl, hf, hj⟩, rfl⟩
    · exact ⟨⟨hs, hf, hj⟩, rfl⟩
  obtain ⟨hf, r, ⟨hj, rfl⟩ | ⟨-, hr⟩, rfl⟩ := opening_eq_ok_iff.mp ho
  · exact hbegun r hf hj
  · have hsame := rejumped_resolve hr
    obtain ⟨hlive, hscratch⟩ :=
      hbegun r ((hsame.read Chain.finished).trans hf) (hsame.read Chain.jumpsStale)
    exact ⟨hlive, hscratch.trans (hsame.read Chain.scratch)⟩

def settled (c : Chain κ ω α) (id : NodeId) (filter : Option Condition) : Chain κ ω α :=
  c.modifyNode id fun n => { n with command := n.command.settled filter }

def expecting (c : Chain κ ω α) (key : String) : Chain κ ω α :=
  { c with scratch := { c.scratch with messageKey := some key, arrived := false } }

def satisfied (c : Chain κ ω α) : Chain κ ω α :=
  { c with scratch := { c.scratch with messageKey := none, arrived := false } }

end Chain

def Setting.heeding (σ : Setting κ (ω × Journal κ)) (self : Caller) (key : String)
    (filter : Option Condition) : Setting κ (ω × Journal κ) :=
  ⟨{ σ.scene with bus := σ.scene.bus.subscribe key self.component filter }, σ.world.1,
    σ.world.2 ++ [.asked self σ.scene (.subscribe key filter) (.ok ())]⟩

def Setting.unheeding (σ : Setting κ (ω × Journal κ)) (self : Caller) (key : String) :
    Setting κ (ω × Journal κ) :=
  ⟨σ.scene.unsubscribe key self.component, σ.world.1,
    σ.world.2 ++ [.asked self σ.scene (.unsubscribe key) ()]⟩

namespace ChainRun

variable [Named κ] {act : α → Caller → Script κ ω (Except Failure Unit)} {self : Caller}
  {c : Chain κ ω α} {σ : Setting κ (ω × Journal κ)}

section Parts

theorem play_await_first {key : String} {filter : Option Condition}
    (hslot : (σ.scene.slot? self.component).isSome) (hk : c.scratch.messageKey = none) :
    (awaitMessage key filter).play self c σ =
      (.ok (.ok .suspend, c.expecting key), σ.heeding self key filter) := by
  obtain ⟨t, ht⟩ := Option.isSome_iff_exists.mp hslot
  have hanswer : (Request.subscribe key filter : Request κ).answer self σ.scene =
      (.ok (), { σ.scene with bus := σ.scene.bus.subscribe key self.component filter }) := by
    simp only [Request.answer, Scene.subscribe, ht]
  have hdemand : (demand (.request (.subscribe key filter)) : ChainRun κ ω α Unit).play self c σ =
      (.ok ((Request.answer self σ.scene (.subscribe key filter)).1, c),
        ⟨(Request.answer self σ.scene (.subscribe key filter)).2, σ.world.1, σ.world.2 ++
          [.asked self σ.scene (.subscribe key filter)
            (Request.answer self σ.scene (.subscribe key filter)).1]⟩) := rfl
  rw [hanswer] at hdemand
  simp only [awaitMessage, play_bind, play_scratch, hk, Option.isNone_none, if_true, hdemand,
    play_modifyScratch, play_pure]
  rfl

theorem play_await_arrived {key : String} {filter : Option Condition}
    (hk : c.scratch.messageKey.isNone = false) (ha : c.scratch.arrived = true) :
    (awaitMessage key filter).play self c σ =
      (.ok (.ok .advance, c.satisfied), σ.unheeding self key) := by
  simp only [awaitMessage, play_bind, play_scratch, hk, Bool.false_eq_true, if_false, ha, if_true,
    play_modifyScratch, play_pure]
  rfl

theorem play_await_waiting {key : String} {filter : Option Condition}
    (hk : c.scratch.messageKey.isNone = false) (ha : c.scratch.arrived = false) :
    (awaitMessage key filter).play self c σ = (.ok (.ok .suspend, c), σ) := by
  simp only [awaitMessage, play_bind, play_scratch, hk, Bool.false_eq_true, if_false, ha, play_pure]

/-- Both commands that wait resolve their filter, keep it, and do the same with it. -/
theorem play_dispatch_mailbox (absolute : Seconds) {id : NodeId} {n : Node κ ω α}
    (hn : c.nodes[id]? = some n) {key : String} {filter : HostFun ω (Option Condition)}
    (hm : n.command.mailbox? = some (key, filter)) :
    (dispatch act self absolute id).play self c σ =
      match filter σ.world.1 with
      | (.ok f, w) => (awaitMessage key f).play self (c.settled id f) ⟨σ.scene, w, σ.world.2⟩
      | (.error crash, w) => (.error crash, ⟨σ.scene, w, σ.world.2⟩) := by
  rw [dispatch, play_bind, play_node _ _ _ hn]
  cases hc : n.command with
  | waitForMessage k =>
    rw [hc] at hm
    cases hm
    have hsame : c.settled id none = c := modifyNode_same hn (by rw [hc]; cases n; cases hc; rfl)
    simp only [hc, hsame]
  | waitForMessageWhere k condition =>
    rw [hc] at hm
    cases hm
    simp only [hc, awaitMessageWhere, play_bind, play_script, Script.only_resolve condition self σ]
    cases hv : condition.value σ.world.1 with
    | mk answer w =>
      cases answer with
      | ok a =>
        have hsame : (c.modifyNode id fun n =>
            { n with command := .waitForMessageWhere key { condition with cached := some a } }) =
              c.settled id (some a) :=
          modifyNode_congr hn (by rw [hc]; rfl)
        simp only [Except.map, play_setCommand, hsame]
      | error crash => rfl
  | _ =>
    rw [hc] at hm
    cases hm

theorem play_settle_advance {id : NodeId} {n : Node κ ω α} (hn : c.nodes[id]? = some n) :
    ∃ nodes, (settle id .advance).play self c σ =
      (.ok (.ok true, { c with nodes, current := n.next }), σ) := by
  obtain ⟨f, hleave, hf⟩ : ∃ f : Node κ ω α → Node κ ω α,
      (leave id).play self c σ = (.ok (.ok (), c.modifyNode id f), σ) ∧ ∀ n, (f n).next = n.next :=
    ⟨_, rfl, fun n => by split <;> rfl⟩
  refine ⟨c.nodes.modify id f, ?_⟩
  simp only [settle, moveAfter, play_bind, hleave, play_node _ _ _ (getElem?_modifyNode hn f),
    play_modify, play_pure, hf]
  rfl

theorem play_release : (release : ChainRun κ ω α Unit).play self c σ = (.ok (.ok (), c.released),
    match c.scratch.messageKey with
    | some key => σ.unheeding self key
    | none => σ) := by
  simp only [release, play_bind, play_scratch]
  cases c.scratch.messageKey with
  | some key => rfl
  | none => rfl

theorem play_round (absolute : Seconds) (hs : σ.scene.isDone self.component = false) :
    (round act self absolute).play self c σ =
      match firstHolds c.interrupts σ.world.1 with
      | (.ok true, w) => (complete >>= fun _ => pure false).play self c ⟨σ.scene, w, σ.world.2⟩
      | (.ok false, w) =>
          (match c.current with
          | none => do
            if !c.scopes.isEmpty then throw (.unterminatedScope c.name c.scopes.depth)
            complete
            return false
          | some id => turn act self absolute id : ChainRun κ ω α Bool).play self c
            ⟨σ.scene, w, σ.world.2⟩
      | (.error crash, w) => (.error crash, ⟨σ.scene, w, σ.world.2⟩) := by
  rw [round, play_bind, play_isDone]
  simp only [hs, Bool.false_eq_true, if_false]
  rw [play_bind, play_chain]
  dsimp only
  rw [play_bind, play_script, only_anyHolds c.interrupts self σ]
  cases firstHolds c.interrupts σ.world.1 with
  | mk answer w =>
    cases answer with
    | error crash => rfl
    | ok b =>
      cases b with
      | true => rfl
      | false =>
        simp only [Bool.false_eq_true, if_false]
        rw [play_bind, play_chain]
        dsimp only
        cases c.current with
        | none => rfl
        | some id =>
          simp only [turn]
          congr 2

end Parts

end ChainRun

structure Chain.Tends (c : Chain κ ω α) (id : ComponentId) (σ : Setting κ (ω × Journal κ)) : Prop where
  seats : σ.scene.Seats id
  attends : c.Attends id σ.scene σ.world.2

namespace Chain

variable {c d : Chain κ ω α} {id : ComponentId} {σ : Setting κ (ω × Journal κ)}

theorem tends_of_none (hs : σ.scene.Seats id) (hk : c.scratch.messageKey = none) : c.Tends id σ :=
  ⟨hs, attends_of_none hk⟩

theorem Tends.elsewhere (h : c.Tends id σ) (w : ω) : c.Tends id ⟨σ.scene, w, σ.world.2⟩ :=
  ⟨h.seats, h.attends⟩

end Chain

namespace Setting

variable {σ : Setting κ (ω × Journal κ)} (self : Caller) (key : String)

theorem wait?_heeding (filter : Option Condition) :
    (σ.heeding self key filter).world.2.wait? self.component = some { key, filter } := by
  rw [heeding, Journal.wait?_concat]
  exact if_pos rfl

theorem filter?_heeding (filter : Option Condition) :
    (σ.heeding self key filter).scene.bus.filter? key self.component = some filter := by
  rw [heeding, Bus.filter?_subscribe]
  exact if_pos ⟨rfl, rfl⟩

theorem seats_heeding (h : σ.scene.Seats self.component) (filter : Option Condition) :
    (σ.heeding self key filter).scene.Seats self.component :=
  ⟨h.tidy.subscribe key self.component filter, h.slot⟩

theorem wait?_unheeding : (σ.unheeding self key).world.2.wait? self.component = none := by
  rw [unheeding, Journal.wait?_concat]
  exact if_pos rfl

theorem filter?_unheeding (h : σ.scene.bus.Tidy) :
    (σ.unheeding self key).scene.bus.filter? key self.component = none := by
  refine (h.filter?_withdraw _ _ _ _).trans (if_pos ?_)
  simp

theorem seats_unheeding (h : σ.scene.Seats self.component) :
    (σ.unheeding self key).scene.Seats self.component :=
  ⟨h.tidy.withdraw (· == key) self.component, h.slot⟩

end Setting

namespace ChainRun

variable [Named κ] {act : α → Caller → Script κ ω (Except Failure Unit)} {self : Caller}
  {c : Chain κ ω α} {σ : Setting κ (ω × Journal κ)}

structure Frees (c : Chain κ ω α) (id : ComponentId) (s : Scene κ) : Prop where
  seats : s.Seats id
  gone : ∀ key, c.scratch.messageKey = some key → s.bus.filter? key id = none

theorem frees_release (h : σ.scene.Seats self.component) :
    ∃ σ', (release : ChainRun κ ω α Unit).play self c σ = (.ok (.ok (), c.released), σ') ∧
      Frees c self.component σ'.scene := by
  refine ⟨_, play_release, ?_⟩
  cases hk : c.scratch.messageKey with
  | none => exact ⟨h, fun _ hkey => nomatch hk.symm.trans hkey⟩
  | some key =>
    refine ⟨σ.seats_unheeding self key h, fun key' hkey => ?_⟩
    cases hk.symm.trans hkey
    exact σ.filter?_unheeding self key h.tidy

theorem frees_shutDown (h : σ.scene.Seats self.component) :
    ∃ σ', (shutDown : ChainRun κ ω α Unit).play self c σ =
        (.ok (.ok (), { c.released with finished := true }), σ') ∧ Frees c self.component σ'.scene := by
  obtain ⟨σ', hplay, hfrees⟩ := frees_release (c := c) h
  refine ⟨σ', ?_, hfrees⟩
  simp only [shutDown, play_bind, hplay, play_modify]

theorem frees_complete (h : σ.scene.Seats self.component) :
    ∃ σ', (complete : ChainRun κ ω α Unit).play self c σ =
        (.ok (.ok (), { c.released with finished := true }), σ') ∧ Frees c self.component σ'.scene := by
  obtain ⟨σ', hplay, hfrees⟩ := frees_release (c := c) h
  refine ⟨_, ?_, hfrees.seats.recorded self (.request .finish), fun key hk => ?_⟩
  · simp only [complete, play_bind, hplay, play_modify]
    rfl
  · exact hfrees.gone key hk

end ChainRun

/-- What a round does whose cursor is on a command that waits for a message. -/
inductive Wait.Visit (self : Caller) (c : Chain κ ω α) (σ : Setting κ (ω × Journal κ)) :
    Except Crash (Except Failure Bool × Chain κ ω α) × Setting κ (ω × Journal κ) → Prop where
  /-- Someone has stopped the component. -/
  | stopped (h : σ.scene.isDone self.component = true) : Wait.Visit self c σ (.ok (.ok false, c), σ)
  /-- An interrupt holds, and the chain ends without the subscription that it has waited with. -/
  | interrupted {w : ω} {σ' : Setting κ (ω × Journal κ)} (hrun : σ.scene.isDone self.component = false)
      (h : firstHolds c.interrupts σ.world.1 = (.ok true, w))
      (hgone : ∀ key, c.scratch.messageKey = some key → σ'.scene.bus.filter? key self.component = none) :
      Wait.Visit self c σ (.ok (.ok false, { c.released with finished := true }), σ')
  /-- An interrupt, a function of the host, crashes. -/
  | crashed {w : ω} {crash : Crash} (hrun : σ.scene.isDone self.component = false)
      (h : firstHolds c.interrupts σ.world.1 = (.error crash, w)) :
      Wait.Visit self c σ (.error crash, ⟨σ.scene, w, σ.world.2⟩)
  /-- In the first visit the function of the host that makes the filter crashes. -/
  | unfiltered {w w' : ω} {key : String} {filter : HostFun ω (Option Condition)} {crash : Crash}
      (hrun : σ.scene.isDone self.component = false)
      (h : firstHolds c.interrupts σ.world.1 = (.ok false, w))
      (hkey : c.scratch.messageKey = none) (hm : c.mailbox? = some (key, filter))
      (hf : filter w = (.error crash, w')) :
      Wait.Visit self c σ (.error crash, ⟨σ.scene, w', σ.world.2⟩)
  /-- The first visit subscribes the chain, which has received nothing yet. From then on it waits. -/
  | subscribes {w w' : ω} {key : String} {filter : HostFun ω (Option Condition)}
      {f : Option Condition} {c' : Chain κ ω α} {σ' : Setting κ (ω × Journal κ)}
      (hrun : σ.scene.isDone self.component = false)
      (h : firstHolds c.interrupts σ.world.1 = (.ok false, w))
      (hkey : c.scratch.messageKey = none) (hm : c.mailbox? = some (key, filter))
      (hf : filter w = (.ok f, w')) (hcursor : c'.current = c.current)
      (hwaits : c'.scratch.messageKey = some key)
      (hnow : σ'.world.2.wait? self.component = some { key, filter := f })
      (hbus : σ'.scene.bus.filter? key self.component = some f) :
      Wait.Visit self c σ (.ok (.ok false, c'), σ')
  /-- Without a message the chain stays as it is. -/
  | waits {w : ω} {wait : Wait κ} (hrun : σ.scene.isDone self.component = false)
      (h : firstHolds c.interrupts σ.world.1 = (.ok false, w))
      (hkey : c.scratch.messageKey = some wait.key)
      (hwait : σ.world.2.wait? self.component = some wait) (hr : wait.received = []) :
      Wait.Visit self c σ (.ok (.ok false, c), ⟨σ.scene, w, σ.world.2⟩)
  /-- With a message the chain goes on behind the command. It does not wait any more, and what it has
  waited with is gone. -/
  | leaves {w : ω} {wait : Wait κ} {c' : Chain κ ω α} {σ' : Setting κ (ω × Journal κ)}
      (hrun : σ.scene.isDone self.component = false)
      (h : firstHolds c.interrupts σ.world.1 = (.ok false, w))
      (hkey : c.scratch.messageKey = some wait.key)
      (hwait : σ.world.2.wait? self.component = some wait) (hr : wait.received ≠ [])
      (hnext : c'.current = c.current.bind fun id => c.nodes[id]?.bind (·.next))
      (hfree : c'.scratch.messageKey = none) (hnow : σ'.world.2.wait? self.component = none)
      (hgone : σ'.scene.bus.filter? wait.key self.component = none) :
      Wait.Visit self c σ (.ok (.ok true, c'), σ')

/-- After a round the chain is as the journal tells. It is live if the step goes on, and otherwise it
has visited the wait that its cursor is on. -/
def Chain.Settles (id : ComponentId) :
    Except Crash (Except Failure Bool × Chain κ ω α) × Setting κ (ω × Journal κ) → Prop
  | (.ok (answer, c), σ) =>
      c.Tends id σ ∧ (answer = .ok true → c.Live) ∧
        (answer ≠ .ok true → c.Poised id σ.scene)
  | (.error _, _) => True

theorem Chain.mailbox?_eq_some {c : Chain κ ω α} {key : String}
    {filter : HostFun ω (Option Condition)} (h : c.mailbox? = some (key, filter)) :
    ∃ id n, c.current = some id ∧ c.nodes[id]? = some n ∧ n.command.mailbox? = some (key, filter) := by
  obtain ⟨command, hc, hm⟩ := Option.bind_eq_some_iff.mp h
  obtain ⟨id, hcur, hcommand⟩ := Option.bind_eq_some_iff.mp hc
  obtain ⟨n, hn, rfl⟩ := Option.map_eq_some_iff.mp hcommand
  exact ⟨id, n, hcur, hn, hm⟩

namespace ChainRun

variable [Named κ] {act : α → Caller → Script κ ω (Except Failure Unit)} {self : Caller}
  {c : Chain κ ω α} {σ : Setting κ (ω × Journal κ)} {absolute : Seconds} {key : String}
  {filter : HostFun ω (Option Condition)}

theorem visit_first {w : ω} (h : c.Tends self.component σ) (hl : c.Live)
    (hk : c.scratch.messageKey = none) {id : NodeId} {n : Node κ ω α} (hcur : c.current = some id)
    (hn : c.nodes[id]? = some n) (hm : n.command.mailbox? = some (key, filter))
    (hrun : σ.scene.isDone self.component = false) (hi : firstHolds c.interrupts σ.world.1 = (.ok false, w)) :
    Wait.Visit self c σ ((turn act self absolute id).play self c ⟨σ.scene, w, σ.world.2⟩) ∧
      Chain.Settles self.component
        ((turn act self absolute id).play self c ⟨σ.scene, w, σ.world.2⟩) := by
  have hmailbox : c.mailbox? = some (key, filter) := by
    simp only [Chain.mailbox?, currentCommand?, hcur, Option.bind_some, hn, Option.map_some, hm]
  rw [turn, play_bind, play_dispatch_mailbox absolute hn hm]
  cases hf : filter w with
  | mk answer w' =>
    cases answer with
    | error crash => exact ⟨.unfiltered hrun hi hk hmailbox hf, trivial⟩
    | ok f =>
      have hrests : ((c.settled id f).expecting key).Rests ({ key, filter := f } : Wait κ) := by
        refine ⟨Live.opening ⟨hl.started, hl.finished, hl.resolved⟩, ⟨n.command.settled f, ?_, ?_⟩, rfl,
          fun _ _ hmem => absurd hmem List.not_mem_nil⟩
        · have hnode := getElem?_modifyNode hn fun n => { n with command := n.command.settled f }
          rw [currentCommand?, expecting, settled]
          change c.current.bind _ = _
          rw [hcur, Option.bind_some, hnode, Option.map_some]
        · exact Command.listens_settled hm hf
      have hawait : (awaitMessage key f).play self (c.settled id f) ⟨σ.scene, w', σ.world.2⟩ = _ :=
        play_await_first h.seats.slot hk
      simp only [hawait, settle, play_pure]
      refine ⟨.subscribes hrun hi hk hmailbox hf rfl rfl (Setting.wait?_heeding self key f)
        (Setting.filter?_heeding self key f), ⟨Setting.seats_heeding self key h.seats f, ?_⟩, by rintro ⟨⟩,
        fun _ => poised_of_key rfl⟩
      intro key' hkey
      cases hkey
      exact ⟨_, Setting.wait?_heeding self key f, rfl, Setting.filter?_heeding self key f, hrests⟩

theorem visit_again {w : ω} (h : c.Tends self.component σ) (hl : c.Live)
    (hk : c.scratch.messageKey = some key) {id : NodeId} (hcur : c.current = some id)
    (hrun : σ.scene.isDone self.component = false)
    (hi : firstHolds c.interrupts σ.world.1 = (.ok false, w)) :
    Wait.Visit self c σ ((turn act self absolute id).play self c ⟨σ.scene, w, σ.world.2⟩) ∧
      Chain.Settles self.component
        ((turn act self absolute id).play self c ⟨σ.scene, w, σ.world.2⟩) := by
  obtain ⟨wait, hw, rfl, -, hrests⟩ := h.attends key hk
  obtain ⟨command, hcommand, hlistens⟩ := hrests.command
  obtain ⟨filter, hm, hf⟩ := hlistens.mailbox
  rw [currentCommand?, hcur, Option.bind_some] at hcommand
  obtain ⟨n, hn, rfl⟩ := Option.map_eq_some_iff.mp hcommand
  have hsettled : c.settled id wait.filter = c :=
    modifyNode_same hn (by rw [hlistens.settled])
  have hsome : c.scratch.messageKey.isNone = false := by rw [hk, Option.isNone_some]
  rw [turn, play_bind, play_dispatch_mailbox absolute hn hm]
  simp only [hf, hsettled]
  cases hr : wait.received with
  | nil =>
    have ha : c.scratch.arrived = false := by
      rw [hrests.arrived, hr]
      rfl
    simp only [play_await_waiting hsome ha, settle, play_pure]
    exact ⟨.waits hrun hi hk hw hr, h.elsewhere w, by rintro ⟨⟩, fun _ => poised_of_key hk⟩
  | cons first rest =>
    have ha : c.scratch.arrived = true := by
      rw [hrests.arrived, hr]
      rfl
    obtain ⟨nodes, hadvance⟩ : ∃ nodes, (settle id .advance).play self c.satisfied
        (Setting.unheeding ⟨σ.scene, w, σ.world.2⟩ self wait.key) =
          (.ok (.ok true, { c.satisfied with nodes, current := n.next }), _) := play_settle_advance hn
    simp only [play_await_arrived hsome ha, hadvance]
    refine ⟨.leaves hrun hi hk hw (hr ▸ List.cons_ne_nil _ _) ?_ rfl (Setting.wait?_unheeding self wait.key)
      (Setting.filter?_unheeding self wait.key h.seats.tidy),
      tends_of_none (Setting.seats_unheeding self wait.key h.seats) rfl,
      fun _ => ⟨hl.started, hl.finished, hl.resolved⟩, fun hne => absurd rfl hne⟩
    rw [hcur, Option.bind_some, hn, Option.bind_some]

theorem play_round_done (hs : σ.scene.isDone self.component = true) :
    (round act self absolute).play self c σ = (.ok (.ok false, c), σ) := by
  rw [round, play_bind, play_isDone]
  simp only [hs, if_true, play_pure]

theorem visit_round (h : c.Tends self.component σ) (hl : c.Live)
    (hm : c.mailbox? = some (key, filter)) :
    Wait.Visit self c σ ((round act self absolute).play self c σ) := by
  cases hs : σ.scene.isDone self.component with
  | true =>
    rw [play_round_done hs]
    exact .stopped hs
  | false =>
    rw [play_round absolute hs]
    cases hi : firstHolds c.interrupts σ.world.1 with
    | mk answer w =>
      cases answer with
      | error crash => exact .crashed hs hi
      | ok holds =>
        cases holds with
        | true =>
          obtain ⟨σ', hplay, hfrees⟩ := frees_complete (c := c) (h.elsewhere w).seats
          simp only [play_bind, hplay, play_pure]
          exact .interrupted hs hi hfrees.gone
        | false =>
          obtain ⟨id, n, hcur, hn, hmailbox⟩ := mailbox?_eq_some hm
          simp only [hcur]
          cases hk : c.scratch.messageKey with
          | none => exact (visit_first h hl hk hcur hn hmailbox hs hi).1
          | some key => exact (visit_again h hl hk hcur hs hi).1

theorem triple_turn (hl : c.Live) {id : NodeId} {n : Node κ ω α} (hn : c.nodes[id]? = some n)
    (hm : c.mailbox? = none) : Triple self (· = c) (turn act self absolute id)
      (fun goesOn d => (goesOn = true → d.Live) ∧ (goesOn = false → d.mailbox?.isSome = false))
      fun _ d => d.mailbox?.isSome = false := by
  have hnone {d : Chain κ ω α} (h : Alike c d) : d.mailbox?.isSome = false := by
    rw [mailbox?_isSome_of_alike h, hm]
    rfl
  refine triple_bind ((dispatch_spec absolute hn).imp (fun _ h => h) (fun _ _ h => h.1)
    fun _ _ h => hnone h.1) fun flow => ?_
  cases flow with
  | suspend => exact triple_pure fun d hd => ⟨by rintro ⟨⟩, fun _ => hnone hd⟩
  | jump target =>
    exact triple_bind (Q := fun _ d => d.Live) (triple_modify fun d hd => (hl.alike hd).moved _)
      fun _ => triple_pure fun _ hd => ⟨fun _ => hd, by rintro ⟨⟩⟩
  | advance | jumpPast target =>
    refine triple_of fun base hbase => triple_leave_moveAfter.post ?_
    rintro _ _ ⟨rfl, d, hd, rfl⟩
    exact ⟨fun _ => ((hl.alike hbase).alike hd.1).moved _, by rintro ⟨⟩⟩

theorem answers_of_play {t : ChainRun κ ω α τ} {e : Except Failure τ × Chain κ ω α}
    {σ' : Setting κ (ω × Journal κ)} (h : t.play self c σ = (.ok e, σ')) :
    (t.run c).Answers self e := by
  refine ⟨σ.erase, σ'.erase, ?_⟩
  rw [← Script.run_recorded, ← play, h]

theorem settles_turn (h : c.Tends self.component σ) (hl : c.Live) (hk : c.scratch.messageKey = none)
    {id : NodeId} (hcur : c.current = some id) (hm : c.mailbox? = none) :
    Chain.Settles self.component ((turn act self absolute id).play self c σ) := by
  cases hn : c.nodes[id]? with
  | none =>
    have hcrash : (turn act self absolute id).play self c σ = (.error (.dangling id), σ) := by
      simp only [turn, dispatch, node, play_bind, play_chain, hn]
      rfl
    rw [hcrash]
    trivial
  | some n =>
    have hmailbox : n.command.mailbox? = none := by
      rwa [Chain.mailbox?, currentCommand?, hcur, Option.bind_some, hn, Option.map_some,
        Option.bind_some] at hm
    obtain ⟨hcode, hcode'⟩ := Command.opcode_of_mailbox?_eq_none hmailbox
    have hseats := h.seats.recorded self ((turn act self absolute id).run c)
    rw [← play] at hseats
    cases hplay : (turn act self absolute id).play self c σ with
    | mk e σ' =>
      rw [hplay] at hseats
      cases e with
      | error crash => trivial
      | ok e =>
        obtain ⟨answer, d⟩ := e
        have hdeaf := deaf_turn hn hcode hcode' c answer d rfl (answers_of_play hplay)
        have hends := triple_turn hl hn hm c answer d rfl (answers_of_play hplay)
        cases answer with
        | error f =>
          exact ⟨tends_of_none hseats (Eq.trans hdeaf hk), by rintro ⟨⟩, fun _ => poised_of_mailbox hends⟩
        | ok goesOn =>
          refine ⟨tends_of_none hseats (Eq.trans hdeaf hk), fun hgo => hends.1 (Except.ok.inj hgo),
            fun hne => poised_of_mailbox (hends.2 (Bool.eq_false_iff.mpr fun hgo => ?_))⟩
          exact hne (congrArg Except.ok hgo)

theorem settles_round (h : c.Tends self.component σ) (hl : c.Live) :
    Chain.Settles self.component ((round act self absolute).play self c σ) := by
  cases hs : σ.scene.isDone self.component with
  | true =>
    rw [play_round_done hs]
    exact ⟨h, nofun, fun _ _ _ => .inr hs⟩
  | false =>
    rw [play_round absolute hs]
    cases hi : firstHolds c.interrupts σ.world.1 with
    | mk answer w =>
      cases answer with
      | error crash => trivial
      | ok holds =>
        obtain ⟨σ', hplay, hfrees⟩ := frees_complete (c := c) (h.elsewhere w).seats
        cases holds with
        | true =>
          simp only [play_bind, hplay, play_pure]
          exact ⟨tends_of_none hfrees.seats rfl, nofun, fun _ => poised_of_current_none rfl⟩
        | false =>
          cases hcur : c.current with
          | none =>
            simp only
            split
            · exact ⟨h.elsewhere w, nofun, fun _ => poised_of_current_none hcur⟩
            · simp only [play_bind, hplay, play_pure]
              exact ⟨tends_of_none hfrees.seats rfl, nofun, fun _ => poised_of_current_none rfl⟩
          | some id =>
            simp only
            cases hk : c.scratch.messageKey with
            | some key => exact (visit_again h hl hk hcur hs hi).2
            | none =>
              cases hm : c.mailbox? with
              | none => exact settles_turn (h.elsewhere w) hl hk hcur hm
              | some mailbox =>
                obtain ⟨id', n, hcur', hn, hmailbox⟩ := mailbox?_eq_some hm
                cases hcur.symm.trans hcur'
                exact (visit_first h hl hk hcur hn hmailbox hs hi).2

theorem settles_pace (n : Nat) (h : c.Tends self.component σ) (hl : c.Live) :
    Chain.Settles self.component ((pace act self absolute n).play self c σ) := by
  induction n generalizing c σ with
  | zero => exact ⟨h, fun _ => hl, fun hne => absurd rfl hne⟩
  | succ n ih =>
    have hround : Chain.Settles self.component ((round act self absolute).play self c σ) :=
      settles_round h hl
    rw [pace, play_bind]
    cases hr : (round act self absolute).play self c σ with
    | mk e σ' =>
      rw [hr] at hround
      cases e with
      | error crash => trivial
      | ok e =>
        obtain ⟨answer, d⟩ := e
        cases answer with
        | error f => exact hround
        | ok goesOn =>
          cases goesOn with
          | true => exact ih hround.1 (hround.2.1 rfl)
          | false => exact hround

end ChainRun

theorem Chain.Tends.opening {c d : Chain κ ω α} {id : ComponentId} {σ : Setting κ (ω × Journal κ)}
    (h : c.Tends id σ) (ho : c.opening = .ok d) : d.Tends id σ ∧ d.Live := by
  obtain ⟨hl, hscratch⟩ := live_opening ho
  refine ⟨?_, hl⟩
  cases hk : c.scratch.messageKey with
  | none => exact tends_of_none h.seats (hscratch ▸ hk)
  | some key =>
    obtain ⟨_, _, _, _, hrests⟩ := h.attends key hk
    cases hrests.ready.symm.trans ho
    exact h

def Chain.Tended (id : ComponentId) :
    Except Crash (Except Failure τ × Chain κ ω α) × Setting κ (ω × Journal κ) → Prop
  | (.ok (_, c), σ) => c.Tends id σ ∧ c.Poised id σ.scene
  | (.error _, _) => True

namespace ChainRun

variable [Named κ] {act : α → Caller → Script κ ω (Except Failure Unit)} {self : Caller}
  {c : Chain κ ω α} {σ : Setting κ (ω × Journal κ)} {absolute : Seconds}

theorem tended_rounds {fuel : Nat} (h : c.Tends self.component σ) (hl : c.Live) :
    Chain.Tended self.component ((rounds act self absolute fuel).play self c σ) := by
  have hpace : Chain.Settles self.component ((pace act self absolute fuel).play self c σ) :=
    settles_pace fuel h hl
  rw [← Nat.add_zero fuel, rounds_add, play_bind]
  cases hr : (pace act self absolute fuel).play self c σ with
  | mk e σ' =>
    rw [hr] at hpace
    cases e with
    | error crash => trivial
    | ok e =>
      obtain ⟨answer, d⟩ := e
      cases answer with
      | error f => exact ⟨hpace.1, hpace.2.2 nofun⟩
      | ok goesOn =>
        cases goesOn with
        | true => trivial
        | false => exact ⟨hpace.1, hpace.2.2 nofun⟩

theorem play_start : (start : ChainRun κ ω α Unit).play self c σ =
    match c.opening with
    | .ok d => (.ok (.ok (), d), σ)
    | .error f => (.ok (.error f, c), σ) := by
  rw [play, Chain.run_start]
  cases c.opening <;> rfl

theorem tended_step {fuel : Nat} (h : c.Tends self.component σ) (hp : c.Poised self.component σ.scene) :
    Chain.Tended self.component ((step act fuel self absolute).play self c σ) := by
  rw [step, play_bind, play_start]
  cases ho : c.opening with
  | error f => exact ⟨h, hp⟩
  | ok d =>
    obtain ⟨hd, hl⟩ := h.opening ho
    exact tended_rounds hd hl

/-! ## Messages -/

theorem play_notice_other {m : Message} (hk : c.scratch.messageKey ≠ some m.key) :
    (notice m).play self c σ = (.ok (.ok (), c), σ) ∨
      ∃ crash, (notice m).play self c σ = (.error crash, σ) := by
  simp only [notice, play_bind, play_chain]
  cases c.current with
  | none => exact .inl rfl
  | some id =>
    cases hn : c.nodes[id]? with
    | none =>
      refine .inr ⟨.dangling id, ?_⟩
      simp only [node, play_bind, play_chain, hn]
      rfl
    | some n =>
      refine .inl ?_
      simp only [play_bind, play_node _ _ _ hn, beq_eq_false_iff_ne.mpr hk, Bool.and_false,
        Bool.false_eq_true, if_false, play_pure]

theorem play_notice {m : Message} {wait : Wait κ} (hrests : c.Rests wait)
    (hk : c.scratch.messageKey = some m.key) : (notice m).play self c σ =
      (.ok (.ok (), { c with scratch := { c.scratch with arrived := true } }), σ) := by
  obtain ⟨command, hcommand, hlistens⟩ := hrests.command
  obtain ⟨id, hcur, hnode⟩ := Option.bind_eq_some_iff.mp hcommand
  obtain ⟨n, hn, rfl⟩ := Option.map_eq_some_iff.mp hnode
  have hopcode : (decide (n.command.opcode = .waitForMessage) ||
      decide (n.command.opcode = .waitForMessageWhere)) = true := by
    rcases hlistens.opcode with heq | heq <;> simp [heq]
  simp only [notice, play_bind, play_chain, hcur, play_node _ _ _ hn, hopcode, hk, beq_self_eq_true,
    Bool.and_self, if_true, play_modifyScratch]

/-- A chain that waits takes notice of the messages on its key, which its filter has let through. -/
theorem tended_notice {j : Journal κ} {m : Message} (hs : σ.scene.Seats self.component)
    (h : c.Attends self.component σ.scene j) (hp : c.Poised self.component σ.scene)
    (hj : σ.world.2 = j ++ [.called (.message m) self σ.scene])
    (hpass : σ.scene.Honours m self.component) :
    Chain.Tended self.component ((notice m).play self c σ) := by
  have hmark : σ.world.2.wait? self.component = (j.wait? self.component).map fun wait =>
      if m.key = wait.key then { wait with received := wait.received ++ [(m, σ.scene)] } else wait := by
    rw [hj, Journal.wait?_concat]
    exact if_pos rfl
  by_cases hk : c.scratch.messageKey = some m.key
  · obtain ⟨wait, hw, hkey, hfilter, hrests⟩ := h m.key hk
    have hl : c.Live := (live_opening hrests.ready).1
    have hwait : σ.world.2.wait? self.component =
        some { wait with received := wait.received ++ [(m, σ.scene)] } := by
      rw [hmark, hw, Option.map_some, if_pos hkey.symm]
    rw [play_notice hrests hk]
    refine ⟨⟨hs, fun key hkey' => ⟨_, hwait, hkey.trans (Option.some.inj (hk.symm.trans hkey')), ?_, ?_⟩⟩,
      poised_of_key hk⟩
    · cases hk.symm.trans hkey'
      exact hfilter
    · refine ⟨Live.opening ⟨hl.started, hl.finished, hl.resolved⟩, hrests.command, by simp, ?_⟩
      intro m' s' hmem
      rcases List.mem_append.mp hmem with hmem | hmem
      · exact hrests.received m' s' hmem
      · cases List.mem_singleton.mp hmem
        obtain ⟨filter, hf, hmatch⟩ := hpass
        cases hfilter.symm.trans hf
        exact ⟨hkey.symm, hmatch⟩
  · rcases play_notice_other hk with hplay | ⟨crash, hplay⟩
    · rw [hplay]
      refine ⟨⟨hs, fun key hkey => ?_⟩, hp⟩
      obtain ⟨wait, hw, rfl, hfilter, hrests⟩ := h key hkey
      have hne : m.key ≠ wait.key := fun heq => hk (hkey.trans (congrArg some heq.symm))
      refine ⟨wait, ?_, rfl, hfilter, hrests⟩
      rw [hmark, hw, Option.map_some, if_neg hne]
    · rw [hplay]
      trivial

theorem tended_behaviour (h : c.Tends self.component σ) (hp : c.Poised self.component σ.scene)
    (fuel : Nat) (callback : Callback) (hc : ∀ m, callback ≠ .message m) :
    Chain.Tended self.component
      (((Chain.behaviour act fuel callback self c).recorded self).run self σ) := by
  cases callback with
  | init =>
    refine ⟨⟨h.seats, fun key hk => ?_⟩, hp⟩
    obtain ⟨wait, hw, hkey, hfilter, hrests⟩ := h.attends key hk
    obtain ⟨hl, -⟩ := live_opening hrests.ready
    exact ⟨wait, hw, hkey, hfilter, Live.opening ⟨hl.started, hl.finished, hl.resolved⟩, hrests.command,
      hrests.arrived, hrests.received⟩
  | attach | remove => exact ⟨h, hp⟩
  | update delta absolute => exact tended_step h hp
  | message m => exact absurd rfl (hc m)
  | finish | detach =>
    obtain ⟨σ', hplay, hfrees⟩ := frees_shutDown (c := c) h.seats
    change Chain.Tended self.component ((shutDown : ChainRun κ ω α Unit).play self c σ)
    rw [hplay]
    exact ⟨tends_of_none hfrees.seats rfl, poised_of_current_none rfl⟩

end ChainRun
end FrameChain
