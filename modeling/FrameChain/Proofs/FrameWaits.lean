import FrameChain.Proofs.Chain.Unfolding

set_option autoImplicit false

namespace FrameChain

open Chain ChainRun

variable {κ ω α : Type}

/-- This many steps have found the wait for this number waiting, and the next one lets it go. -/
def FramesUp (n : UInt32) (k : Nat) : Prop := k = n.toNat ∧ n.toNat + 1 < UInt32.size

instance (n : UInt32) (k : Nat) : Decidable (FramesUp n k) := inferInstanceAs (Decidable (_ ∧ _))

/-- The count has not gone beyond the number, or no count can. -/
def FramesDue (n : UInt32) (k : Nat) : Prop := k ≤ n.toNat ∨ n.toNat + 1 = UInt32.size

theorem framesDue_zero (n : UInt32) : FramesDue n 0 := .inl (Nat.zero_le _)

/-- The sum of the word wraps only where no count can go beyond the number. -/
theorem FramesDue.beyond_iff {n : UInt32} {k : Nat} (h : FramesDue n k) :
    UInt32.ofNat k + 1 > n ↔ FramesUp n k := by
  have hn : n.toNat < UInt32.size := n.toNat_lt_size
  have hsum : (UInt32.ofNat k + 1).toNat < UInt32.size := UInt32.toNat_lt_size _
  rw [gt_iff_lt, UInt32.lt_iff_toNat_lt]
  rcases Nat.lt_or_ge (n.toNat + 1) UInt32.size with hlt | hge
  · have hk : k ≤ n.toNat := h.resolve_right (Nat.ne_of_lt hlt)
    have hexact : (UInt32.ofNat k + 1).toNat = k + 1 := by
      rw [UInt32.toNat_add, UInt32.toNat_ofNat']
      simp only [UInt32.size, UInt32.toNat_one] at *
      omega
    rw [hexact, FramesUp]
    omega
  · rw [FramesUp]
    omega

theorem FramesDue.succ {n : UInt32} {k : Nat} (h : FramesDue n k) (hu : ¬ FramesUp n k) :
    FramesDue n (k + 1) := by
  have hn : n.toNat < UInt32.size := n.toNat_lt_size
  rw [FramesDue] at h ⊢
  rw [FramesUp] at hu
  omega

namespace Errand

def counted (frames : Lazy ω UInt32) (n : UInt32) : Option UInt32 → Visit κ ω α
  | none => .waiting (waitFrames frames (some 0))
  | some waited =>
    if waited + 1 > n then .finished (waitFrames frames none)
    else .waiting (waitFrames frames (some (waited + 1)))

theorem eq_waitFrames {e : Errand κ ω α} {frames : Lazy ω UInt32} (h : e.command = .waitFrames frames) :
    e = waitFrames frames e.scratch.framesWaited := by
  cases e with
  | waitFrames => cases h; rfl
  | waitForMembers quorum => cases quorum <;> cases h
  | waitForMessage key condition => cases condition <;> cases h
  | _ => cases h

theorem outcome_visit_frames [Named κ] (act : α → Caller → Script κ ω (Except Failure Unit))
    (self : Caller) (absolute : Seconds) (name : String) (frames : Lazy ω UInt32)
    (waited : Option UInt32) (σ : Setting κ ω) :
    ((waitFrames frames waited).visit act self absolute name).run self σ =
      ((frames.value σ.world).1.map fun n => counted (frames.keeping n) n waited,
        ⟨σ.scene, (frames.value σ.world).2⟩) := by
  rw [visit, Script.bind_eq, Script.run_bind, outcome_resolve]
  cases (frames.value σ.world).1 with
  | error crash => rfl
  | ok n =>
    cases waited with
    | none => rfl
    | some waited =>
      simp only [Except.map, counted]
      split <;> rfl

end Errand

section Rounds

variable [Named κ] {caller : Caller} {c : Chain κ ω α} {σ : Setting κ ω} {id : NodeId}
  {frames : Lazy ω UInt32}

theorem outcome_round_frames (act : α → Caller → Script κ ω (Except Failure Unit)) (absolute : Seconds)
    (hneat : c.Neat) (hu : c.Undisturbed caller σ) (hcur : c.current = some id)
    (hc : c.command? id = some (.waitFrames frames)) :
    ((round act caller absolute).run c).run caller σ =
      ((frames.value (checked c σ).world).1.map fun n =>
          (Errand.counted (frames.keeping n) n c.scratch.framesWaited).turned c id,
        ⟨σ.scene, (frames.value (checked c σ).world).2⟩) := by
  obtain ⟨here, hn, hcmd⟩ := Option.map_eq_some_iff.mp hc
  obtain ⟨e, hcommand, hscratch⟩ := hneat.exists_errand hcur hn (by rw [hcmd]; rfl)
  have he := Errand.eq_waitFrames (hcommand.trans hcmd)
  rw [hscratch] at he
  rw [outcome_round hu hcur, run_turn_errand hn act caller absolute hcommand hscratch, Script.run_bind, he,
    Errand.outcome_visit_frames]
  cases (frames.value (checked c σ).world).1 <;> rfl

end Rounds

section Histories

variable [Named κ]

/-- The history of a wait for frames. With it stands the number that the wait was given in this pass and how
many steps have found it waiting since then. A round that stays ends its step, so each of these steps had one
round of the wait. -/
inductive FrameWait (caller : Caller) (id : NodeId) (param : Param ω UInt32) :
    List (Round κ ω α) → Option (UInt32 × Nat) → Prop
  | start : FrameWait caller id param [] none
  | elsewhere {rounds : List (Round κ ω α)} {r : Round κ ω α} {state : Option (UInt32 × Nat)}
      (h : FrameWait caller id param rounds state) (idle : ¬ r.Runs caller id) :
      FrameWait caller id param (rounds ++ [r]) state
  | arrives {rounds : List (Round κ ω α)} {r : Round κ ω α} {n : UInt32}
      (h : FrameWait caller id param rounds none) (runs : r.Runs caller id)
      (given : ((⟨param, none⟩ : Lazy ω UInt32).value (checked r.chain r.setting).world).1 = .ok n)
      (answer : r.answer = .ok false) : FrameWait caller id param (rounds ++ [r]) (some (n, 0))
  | waits {rounds : List (Round κ ω α)} {r : Round κ ω α} {n : UInt32} {k : Nat}
      (h : FrameWait caller id param rounds (some (n, k))) (runs : r.Runs caller id)
      (due : ¬ FramesUp n k) (answer : r.answer = .ok false) :
      FrameWait caller id param (rounds ++ [r]) (some (n, k + 1))
  | passes {rounds : List (Round κ ω α)} {r : Round κ ω α} {n : UInt32} {k : Nat}
      (h : FrameWait caller id param rounds (some (n, k))) (runs : r.Runs caller id)
      (up : FramesUp n k) (answer : r.answer = .ok true) :
      FrameWait caller id param (rounds ++ [r]) none

omit [Named κ] in
/-- What a chain remembers of the wait. Its count is the number of steps as long as that is a word. -/
def Chain.Counts (c : Chain κ ω α) (id : NodeId) (param : Param ω UInt32) :
    Option (UInt32 × Nat) → Prop
  | none => c.command? id = some (.waitFrames ⟨param, none⟩) ∧
      (c.current = some id → c.scratch.framesWaited = none)
  | some (n, k) => c.command? id = some (.waitFrames ⟨param, some n⟩) ∧ c.current = some id ∧
      c.scratch.framesWaited = some (UInt32.ofNat k) ∧ FramesDue n k

variable {act : α → Caller → Script κ ω (Except Failure Unit)} {caller : Caller} {c d : Chain κ ω α}
  {σ : Setting κ ω} {r : Round κ ω α} {id : NodeId} {param : Param ω UInt32}
  {state : Option (UInt32 × Nat)} {rounds : List (Round κ ω α)}

/-- The undisturbed rounds of the wait. The first one stays, whatever number it is given; a later one goes
on just when the steps are up. -/
def Chain.Awaits (act : α → Caller → Script κ ω (Except Failure Unit)) (caller : Caller)
    (c : Chain κ ω α) (σ : Setting κ ω) (id : NodeId) (param : Param ω UInt32) (absolute : Seconds) :
    Option (UInt32 × Nat) → Prop
  | none => ∀ n, ((⟨param, none⟩ : Lazy ω UInt32).value (checked c σ).world).1 = .ok n → ∃ d σ',
      ((round act caller absolute).run c).run caller σ = (.ok (.ok false, d), σ') ∧
        d.Counts id param (some (n, 0))
  | some (n, k) => ∃ d σ',
      ((round act caller absolute).run c).run caller σ = (.ok (.ok (decide (FramesUp n k)), d), σ') ∧
        (FramesUp n k → d.Counts id param none ∧ d.current = c.next? id) ∧
          (¬ FramesUp n k → d.Counts id param (some (n, k + 1)))

omit [Named κ] in
theorem command?_placed_self {command : Command κ ω α} (hc : c.command? id = some command)
    (command' : Command κ ω α) (scratch : Scratch) :
    (placed c id command' scratch).command? id = some command' := by
  rw [command?_placed, if_pos rfl, hc, Option.map_some]

theorem Chain.Counts.awaits (h : c.Counts id param state) (hneat : c.Neat) (hu : c.Undisturbed caller σ)
    (hcur : c.current = some id) (absolute : Seconds) : c.Awaits act caller σ id param absolute state := by
  obtain _ | ⟨n, k⟩ := state
  · obtain ⟨hc, hwaited⟩ := h
    intro n hn
    rw [outcome_round_frames act absolute hneat hu hcur hc, hn, hwaited hcur]
    exact ⟨_, _, rfl, command?_placed_self hc _ _, hcur, rfl, framesDue_zero n⟩
  · obtain ⟨hc, -, hwaited, hdue⟩ := h
    rw [Awaits, outcome_round_frames act absolute hneat hu hcur hc, Lazy.value_of_cached rfl, hwaited]
    simp only [Except.map, Errand.counted, hdue.beyond_iff]
    by_cases hup : FramesUp n k
    · rw [if_pos hup, decide_eq_true hup]
      exact ⟨_, _, rfl, fun _ => ⟨⟨command?_placed_self hc _ {}, fun _ => rfl⟩, rfl⟩, absurd hup⟩
    · rw [if_neg hup, decide_eq_false hup]
      refine ⟨_, _, rfl, (absurd · hup), fun _ => ⟨command?_placed_self hc _ _, hcur, ?_, hdue.succ hup⟩⟩
      exact congrArg some (UInt32.ofNat_add k 1).symm

omit [Named κ] in
theorem Chain.Counts.command (h : c.Counts id param state) :
    ∃ frames, c.command? id = some (.waitFrames frames) := by
  obtain _ | ⟨n, k⟩ := state
  · exact ⟨_, h.1⟩
  · exact ⟨_, h.1⟩

omit [Named κ] in
theorem Chain.Counts.elsewhere (h : c.Counts id param state) (hc : d.command? id = c.command? id)
    (hcur : d.current = some id → c.current = some id ∧ d.scratch = c.scratch ∨ d.scratch = {})
    (hstays : c.current = some id → d.current = some id ∧ d.scratch = c.scratch) :
    d.Counts id param state := by
  obtain _ | ⟨n, k⟩ := state
  · refine ⟨hc.trans h.1, fun hd => ?_⟩
    rcases hcur hd with ⟨hcur, hs⟩ | hs
    · rw [hs]
      exact h.2 hcur
    · rw [hs]
  · obtain ⟨hd, hs⟩ := hstays h.2.1
    exact ⟨hc.trans h.1, hd, hs ▸ h.2.2.1, h.2.2.2⟩

/-- The step: a further round either is one of the wait or leaves it alone. -/
theorem FrameWait.round (h : FrameWait caller id param rounds state)
    (hcounts : r.chain.finished = false → r.chain.Counts id param state) (hneat : r.chain.Neat)
    (hr : r.Happens act caller) : ∃ state', FrameWait caller id param (rounds ++ [r]) state' ∧
      (r.after.finished = false → r.after.Counts id param state') := by
  by_cases hid : r.Runs caller id
  · have hc := hcounts (hneat.running hid.cursor).2
    have hawaits : r.chain.Awaits act caller r.setting id param r.absolute state :=
      hc.awaits hneat hid.undisturbed hid.cursor r.absolute
    obtain _ | ⟨n, k⟩ := state
    · cases hv : ((⟨param, none⟩ : Lazy ω UInt32).value (checked r.chain r.setting).world).1 with
      | error crash =>
        rw [Round.Happens, outcome_round_frames act r.absolute hneat hid.undisturbed hid.cursor hc.1,
          hv] at hr
        cases hr
      | ok n =>
        obtain ⟨d, σ', hrun, hd⟩ := hawaits n hv
        obtain ⟨hout, -⟩ := Prod.mk.inj (hrun.symm.trans hr)
        obtain ⟨hanswer, rfl⟩ := Prod.mk.inj (Except.ok.inj hout)
        exact ⟨_, h.arrives hid hv hanswer.symm, fun _ => hd⟩
    · obtain ⟨d, σ', hrun, hpasses, hwaits⟩ := hawaits
      obtain ⟨hout, -⟩ := Prod.mk.inj (hrun.symm.trans hr)
      obtain ⟨hanswer, rfl⟩ := Prod.mk.inj (Except.ok.inj hout)
      by_cases hup : FramesUp n k
      · rw [decide_eq_true hup] at hanswer
        exact ⟨none, h.passes hid hup hanswer.symm, fun _ => (hpasses hup).1⟩
      · rw [decide_eq_false hup] at hanswer
        exact ⟨_, h.waits hid hup hanswer.symm, fun _ => hwaits hup⟩
  · refine ⟨state, h.elsewhere hid, fun hfin => ?_⟩
    have hc := hcounts (hr.unfinished hneat hfin)
    have hcode : r.chain.opcode? id ≠ some .beginRepeat := by
      obtain ⟨frames, hcommand⟩ := hc.command
      rw [opcode?_eq, hcommand]
      rintro ⟨⟩
    have hcommand := hr.elsewhere hneat hid hcode
    rcases hr.cases with ⟨i, here, ht⟩ | hrests
    · have hi : r.chain.current ≠ some id := fun hcur => hid ⟨ht.undisturbed, hcur⟩
      refine hc.elsewhere hcommand (fun hcur => .inr (hr.cleared hneat ?_)) (absurd · hi)
      by_contra hne
      exact hi ((hr.stays hneat hne hfin).symm.trans hcur)
    · rcases hrests.after with hafter | hafter
      · rw [hafter]
        exact hc
      · rw [hafter] at hfin
        cases hfin

theorem Memo.Suits.unheard {s : Scratch} (h : Suits .frames s) : s.messageKey = none := by cases h <;> rfl

omit [Named κ] in
theorem Chain.Counts.bides (h : c.Counts id param state) (hneat : c.Neat) (hb : c.Bides d)
    (hfin : d.finished = false) : d.Counts id param state := by
  obtain ⟨frames, hcommand⟩ := h.command
  have hquiet (hcur : c.current = some id) : c.scratch.messageKey = none := by
    obtain ⟨here, hn, hcmd⟩ := Option.map_eq_some_iff.mp hcommand
    have hs := hneat.suits
    rw [memo_of_node hcur hn, hcmd, Command.note] at hs
    exact hs.unheard
  have hcursor := (hb.cursor hfin).2
  refine h.elsewhere (congrFun hb.commands id) (fun hcur => ?_) fun hcur => ?_
  · cases hs : c.started with
    | true =>
      have hcur' := (hcursor hs).symm.trans hcur
      exact .inl ⟨hcur', hb.scratch hfin (hquiet hcur')⟩
    | false =>
      have hempty := hneat.scratch (hneat.blank hs)
      exact .inr ((hb.scratch hfin (by rw [hempty])).trans hempty)
  · exact ⟨(hcursor (hneat.running hcur).1).trans hcur, hb.scratch hfin (hquiet hcur)⟩

/-- A wait for frames that is given a number stays in the step that comes to it and in as many further steps
as the number says, and goes on in the next one, in every pass and wherever it stands, unless its component
stops or an interrupt holds. The count never wraps then. The greatest number is different: who is given that
stays in every further step, and its count wraps. -/
theorem frame_wait_history (act : α → Caller → Script κ ω (Except Failure Unit)) {built : Chain κ ω α}
    (hb : Lived act built) (hs : built.started = false)
    (hc : built.command? id = some (.waitFrames ⟨param, none⟩)) {now : Option Seconds}
    (h : Unfolds act caller built rounds c σ now) : ∃ state, FrameWait caller id param rounds state ∧
      (c.finished = false → c.Counts id param state) ∧
      (c.Undisturbed caller σ → c.current = some id → ∀ absolute,
        c.Awaits act caller σ id param absolute state) := by
  have hkept : c.Neat ∧ ∃ state, FrameWait caller id param rounds state ∧
      (c.finished = false → c.Counts id param state) := by
    refine h.along (P := fun rounds c => ∃ state, FrameWait caller id param rounds state ∧
      (c.finished = false → c.Counts id param state)) hb.neat ⟨none, .start, fun _ => ⟨hc, ?_⟩⟩ ?_ ?_
    · intro hcur
      cases (hb.neat.blank hs).symm.trans hcur
    · rintro rounds c d ⟨state, hwait, hcounts⟩ hneat - hbides
      exact ⟨state, hwait, fun hfin => (hcounts (hbides.cursor hfin).1).bides hneat hbides hfin⟩
    · rintro rounds r - ⟨state, hwait, hcounts⟩ hneat hr
      exact hwait.round hcounts hneat hr
  obtain ⟨hneat, state, hwait, hcounts⟩ := hkept
  exact ⟨state, hwait, hcounts, fun hu hcur absolute =>
    (hcounts (hneat.running hcur).2).awaits hneat hu hcur absolute⟩

theorem outcome_update_stays {σ' : Setting κ ω} {fuel : Nat} {delta absolute : Seconds} {e : Chain κ ω α}
    (ho : c.opening = .ok e)
    (hr : ((round act caller absolute).run e).run caller σ = (.ok (.ok false, d), σ')) :
    (Chain.behaviour act (fuel + 1) (.update delta absolute) caller c).run caller σ =
      (.ok (.ok (), d), σ') := by
  rw [Chain.behaviour, step, run_bind, Script.run_bind, run_start, ho]
  change ((rounds act caller absolute (fuel + 1)).run e).run caller σ = _
  rw [rounds, run_bind, Script.run_bind, hr]
  rfl

end Histories

def standing (_ : Unit) (_ : Caller) : Script Probe Nat (Except Failure Unit) := .done (.ok ())

def sentry : Setting Probe Nat :=
  ⟨((({} : Scene Probe).addEntity "host").2.addComponent ⟨1⟩ {}).2, 0⟩

def paces : Chain Probe Nat Unit :=
  Chain.append (Chain.append (Chain.append { name := "paces" } (.beginRepeat ⟨.value 2, none⟩ false))
    (.waitFrames ⟨.value 1, none⟩)) .endRepeat

/-- Three steps: the first wait lasts for two of them, and the third comes to the wait again. -/
theorem frame_wait_history_paces : ∃ rounds c σ, Unfolds standing ⟨⟨1⟩, ⟨1⟩⟩ paces rounds c σ none ∧
    FrameWait ⟨⟨1⟩, ⟨1⟩⟩ 1 (.value 1) rounds (some (1, 0)) := by
  have hsteps : ∃ c c' c'' σ σ' σ'',
      (Chain.behaviour standing 9 (.update 1 1) ⟨⟨1⟩, ⟨1⟩⟩ paces).run ⟨⟨1⟩, ⟨1⟩⟩ sentry =
          (.ok (.ok (), c), σ) ∧
        (Chain.behaviour standing 9 (.update 1 2) ⟨⟨1⟩, ⟨1⟩⟩ c).run ⟨⟨1⟩, ⟨1⟩⟩ σ = (.ok (.ok (), c'), σ') ∧
        (Chain.behaviour standing 9 (.update 1 3) ⟨⟨1⟩, ⟨1⟩⟩ c').run ⟨⟨1⟩, ⟨1⟩⟩ σ' =
          (.ok (.ok (), c''), σ'') ∧
        c''.command? 1 = some (.waitFrames ⟨.value 1, some 1⟩) ∧ c''.scratch.framesWaited = some 0 ∧
          c''.finished = false :=
    ⟨_, _, _, _, _, _, rfl, rfl, rfl, rfl, rfl, rfl⟩
  obtain ⟨c, c', c'', σ, σ', σ'', hfirst, hsecond, hthird, hkept, hwaited, hfin⟩ := hsteps
  obtain ⟨first, hfirst⟩ := (Unfolds.built sentry).update hfirst
  obtain ⟨second, hsecond⟩ := hfirst.update hsecond
  obtain ⟨third, hthird⟩ := hsecond.update hthird
  have hlived : Lived standing paces := .append (.append (.append (.new "paces") _) _) _
  have hcommand : paces.command? 1 = some (.waitFrames ⟨.value 1, none⟩) := rfl
  obtain ⟨state, hwait, hcounts, -⟩ := frame_wait_history standing hlived rfl hcommand hthird
  refine ⟨_, c'', σ'', hthird, ?_⟩
  obtain _ | ⟨n, k⟩ := state
  · cases (hcounts hfin).1.symm.trans hkept
  · obtain ⟨hn, -, hk, hdue⟩ := hcounts hfin
    cases hn.symm.trans hkept
    have hle : k ≤ 1 := hdue.resolve_right (by decide)
    have hzero : k ≠ 1 := by
      rintro rfl
      cases hk.symm.trans hwaited
    obtain rfl : k = 0 := by omega
    exact hwait

def vigil : Chain Probe Nat Unit :=
  Chain.append { name := "vigil" } (.waitFrames ⟨.value 4294967295, none⟩)

def watching (k : Nat) : Chain Probe Nat Unit :=
  { vigil with
    nodes := #[{ command := .waitFrames ⟨.value 4294967295, some 4294967295⟩ }]
    jumpsStale := false
    started := true
    current := some 0
    scratch := { framesWaited := some (.ofNat k) } }

theorem outcome_watching (k : Nat) :
    (Chain.behaviour standing 1 (.update 1 1) ⟨⟨1⟩, ⟨1⟩⟩ (watching k)).run ⟨⟨1⟩, ⟨1⟩⟩ sentry =
      (.ok (.ok (), watching (k + 1)), sentry) := by
  refine outcome_update_stays (e := watching k) rfl ?_
  have hneat : (watching k).Neat := ⟨.frames _, nofun, nofun⟩
  have hdue : FramesDue 4294967295 k := .inr rfl
  have hup : ¬ FramesUp 4294967295 k := fun h => absurd h.2 (by decide)
  have hcur : (watching k).current = some 0 := rfl
  have hcommand : (watching k).command? 0 =
      some (.waitFrames ⟨.value 4294967295, some 4294967295⟩) := rfl
  rw [outcome_round_frames standing 1 hneat ⟨by decide +kernel, rfl⟩ hcur hcommand,
    Lazy.value_of_cached rfl]
  simp only [watching, Except.map, Errand.counted, hdue.beyond_iff, if_neg hup, UInt32.ofNat_add]
  rfl

def watch (c : Chain Probe Nat Unit) : Nat → Script Probe Nat (Except Failure Unit × Chain Probe Nat Unit)
  | 0 => .done (.ok (), c)
  | n + 1 => (Chain.behaviour standing 1 (.update 1 1) ⟨⟨1⟩, ⟨1⟩⟩ c).bind fun answer => watch answer.2 n

theorem outcome_watch (j k : Nat) : (watch (watching j) k).run ⟨⟨1⟩, ⟨1⟩⟩ sentry =
    (.ok (.ok (), watching (j + k)), sentry) := by
  induction k generalizing j with
  | zero => rfl
  | succ k ih =>
    rw [watch, Script.run_bind, outcome_watching]
    exact (ih (j + 1)).trans (by rw [Nat.add_right_comm, Nat.add_assoc])

/-- The step that comes to the wait and one step more than its number of frames leave the cursor there, with
a count that begins again. -/
theorem frame_wait_endless :
    (watch vigil (UInt32.size + 1)).run ⟨⟨1⟩, ⟨1⟩⟩ sentry =
        (.ok (.ok (), watching UInt32.size), sentry) ∧
      (watching UInt32.size).currentOpcode? = some .waitFrames ∧
      (watching UInt32.size).finished = false ∧
      (watching UInt32.size).scratch.framesWaited = some 0 := by
  have hfirst : (Chain.behaviour standing 1 (.update 1 1) ⟨⟨1⟩, ⟨1⟩⟩ vigil).run ⟨⟨1⟩, ⟨1⟩⟩ sentry =
      (.ok (.ok (), watching 0), sentry) := rfl
  refine ⟨?_, rfl, rfl, rfl⟩
  rw [watch, Script.run_bind, hfirst]
  exact (outcome_watch 0 UInt32.size).trans (by rw [Nat.zero_add])

end FrameChain
