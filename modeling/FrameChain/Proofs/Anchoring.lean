import FrameChain.Proofs.Chain.Passes
import FrameChain.Proofs.Editing
import FrameChain.Proofs.Rebuilding

set_option autoImplicit false

/-! A chain refers to nodes by their index: with its cursor, its open loops and its jumps. Editing moves
nodes and leaves some behind, but it is refused as soon as there can be references. -/
namespace FrameChain

open Chain ChainRun

variable {κ ω α ι : Type}

namespace Chain

structure Anchored (c : Chain κ ω α) : Prop where
  inside : ∀ id ∈ c.walk, id < c.nodes.size
  cursor : ∀ id ∈ c.current, id ∈ c.walk
  scopes : ∀ id ∈ c.scopes.entries, id ∈ c.walk
  jumps : c.jumpsStale = false → ∀ id ∈ c.walk, ∀ target ∈ c.jump? id, target ∈ c.walk

variable {c d j : Chain κ ω α} {ids : List NodeId} {stale : Bool}

theorem Anchored.twin (h : c.Anchored) (hl : c.Lists ids) : Twin id ids c.jumpsStale c c := by
  obtain ⟨-, hcursor, hscopes, hjumps⟩ := h
  rw [hl.walk] at hcursor hscopes hjumps
  refine ⟨hl, by rwa [List.map_id], fun _ _ => rfl, fun hs i hi => ⟨?_, hjumps hs i hi⟩, ⟨?_, hcursor⟩, ?_,
    hscopes, rfl, rfl⟩
  · exact (congrFun Option.map_id _).symm
  · exact (congrFun Option.map_id _).symm
  · exact (List.map_id _).symm

theorem Twin.anchored (h : Twin id ids stale c c) : c.Anchored := by
  refine ⟨?_, ?_, ?_, fun hs => ?_⟩ <;> rw [h.lists.walk]
  · exact h.lists.linked.inside
  · exact h.current.2
  · exact h.opened
  · exact fun i hi => (h.jump (h.stale.symm.trans hs) i hi).2

theorem Blank.anchored (h : c.Blank) (hl : c.Lists ids) : c.Anchored := by
  refine ⟨hl.walk ▸ hl.linked.inside, ?_, ?_, fun hs => ?_⟩
  · rw [h.current]
    nofun
  · rw [h.scopes]
    nofun
  · cases h.stale.symm.trans hs

theorem Anchored.append (h : c.Anchored) (hl : c.Lists ids) (command : Command κ ω α) :
    (c.append command).Anchored := by
  have hl' := hl.append command
  have hmore : ∀ i ∈ c.walk, i ∈ (c.append command).walk := by
    rw [hl.walk, hl'.walk]
    exact fun i hi => List.mem_append_left _ hi
  have hinside := hl'.walk ▸ hl'.linked.inside
  rcases relisted_append c command with hsame | ⟨nodes, head, tail, hsame⟩
  · rw [hsame]
    exact h
  · rw [hsame] at hinside hmore ⊢
    exact ⟨hinside, fun i hi => hmore i (h.cursor i hi), fun i hi => hmore i (h.scopes i hi), nofun⟩

theorem Anchored.not_dangles (h : c.Anchored) (hs : c.jumpsStale = false) (i : NodeId) : ¬ c.Dangles i := by
  rintro ⟨hnamed, habsent⟩
  have hlisted : i ∈ c.walk := by
    rcases hnamed with hcur | hscope | hjump
    · exact h.cursor i hcur
    · exact h.scopes i hscope
    · obtain ⟨place, hcur, hj⟩ := Option.bind_eq_some_iff.mp hjump
      exact h.jumps hs place (h.cursor place hcur) i hj
  rw [Array.getElem?_eq_getElem (h.inside i hlisted)] at habsent
  cases habsent

/-- The references of the chain hold, its list can be walked both ways, and what the host can look up there
is found. -/
structure Intact (c : Chain κ ω α) : Prop where
  anchored : c.Anchored
  reversible : c.Reversible
  opcodes : c.walk.map c.opcode? = c.opcodes.map some
  currentOpcode : c.currentOpcode?.isSome = c.current.isSome

theorem Anchored.intact (h : c.Anchored) (hl : c.Lists ids) : c.Intact := by
  have hfound (i : NodeId) (hi : i ∈ c.walk) : (c.opcode? i).isSome := by
    rw [opcode?, Array.getElem?_eq_getElem (h.inside i hi)]
    rfl
  refine ⟨h, hl.reversible, map_eq_map_some hfound, ?_⟩
  rw [currentOpcode?]
  cases hcur : c.current with
  | none => rfl
  | some id => exact hfound id (h.cursor id hcur)

end Chain

section Callbacks

variable [Named κ] {act : α → Caller → Script κ ω (Except Failure Unit)} {self : Caller}
  {c d : Chain κ ω α} {ids : List NodeId} {σ σ' : Setting κ ω} {absolute : Seconds}

omit [Named κ] in
theorem ChainRun.even_pace {ρ : NodeId → NodeId} (n : Nat) :
    Even ρ ids false (pace act self absolute n) := by
  induction n with
  | zero => exact even_pure _
  | succ n ih => exact (even_round absolute).bind fun _ => lock_ite ih (even_pure _)

theorem anchored_behaviour {fuel : Nat} {callback : Callback} {answer : Except Failure Unit}
    (hl : c.Lists ids) (h : c.Anchored)
    (hr : (Chain.behaviour act fuel callback self c).Answers self (answer, d)) : d.Anchored := by
  obtain ⟨σ, σ', hr⟩ := hr
  obtain ⟨_, hsame, -, _, htwin⟩ :=
    (matches_behaviour act (h.twin hl) fuel callback self).exists_run hr
  cases hsame.symm.trans hr
  exact htwin.anchored

theorem Chain.Twin.pace (h : Twin id ids false c c) {n : Nat} {answer : Except Failure Bool}
    (hr : ((pace act self absolute n).run c).run self σ = (.ok (answer, d), σ')) :
    Twin id ids false d d := by
  have heven : Even id ids false (ChainRun.pace act self absolute n) := even_pace n
  obtain ⟨_, hsame, -, htwin⟩ := (heven c c h).exists_run hr
  cases hsame.symm.trans hr
  exact htwin

theorem Lived.anchored (h : Lived act c) : c.Anchored := by
  -- By induction on the life of the chain. Chains that are joined or cut are blank, so they refer to
  -- nothing.
  have hblank {x j : Chain κ ω α} (hx : Lived act x) (hidle : x.ensureIdle = .ok ()) (hj : Lived act j)
      (hr : Relisted x j) : j.Anchored := by
    obtain ⟨ids, hl⟩ := hj.lists
    exact ((hx.blank (ensureIdle_ok.mp hidle).1).relisted hr).anchored hl
  induction h with
  | new name => exact ⟨nofun, nofun, nofun, nofun⟩
  | append hc command ih =>
    obtain ⟨ids, hl⟩ := hc.lists
    exact ih.append hl command
  | interruptIf _ holds ih => exact ⟨ih.inside, ih.cursor, ih.scopes, ih.jumps⟩
  | merged hc hd hm =>
    obtain ⟨⟨hidle, hr⟩, -⟩ := relisted_mergeWith hm
    exact hblank hc hidle (.merged hc hd hm) hr
  | mergedAtBeginning hc hd hm =>
    obtain ⟨⟨hidle, hr⟩, -⟩ := relisted_mergeAtBeginning hm
    exact hblank hc hidle (.mergedAtBeginning hc hd hm) hr
  | donor hc hd hm =>
    obtain ⟨hidle, hr⟩ := hm.elim (fun hm => (relisted_mergeWith hm).2)
      fun hm => (relisted_mergeAtBeginning hm).2
    exact hblank hd hidle (.donor hc hd hm) hr
  | removedLast hc hm =>
    obtain ⟨hidle, hr⟩ := relisted_removeLast hm
    exact hblank hc hidle (.removedLast hc hm) hr
  | called fuel callback self hc hr ih =>
    obtain ⟨ids, hl⟩ := hc.lists
    exact anchored_behaviour hl ih hr

variable {crash : Crash} {fuel : Nat}

theorem Chain.Anchored.notice_ok (h : c.Anchored) (m : Message) (self : Caller) (σ : Setting κ ω) :
    ∃ d, ((notice m).run c).run self σ = (.ok (.ok (), d), σ) := by
  simp only [outcome_of_play, notice, play_bind, play_chain]
  cases hcur : c.current with
  | none => exact ⟨c, rfl⟩
  | some id =>
    have hn := Array.getElem?_eq_getElem (h.inside id (h.cursor id hcur))
    simp only [play_bind, play_node _ _ _ hn]
    split
    · exact ⟨_, rfl⟩
    · exact ⟨c, rfl⟩

theorem shutDown_ok (self : Caller) (c : Chain κ ω α) (σ : Setting κ ω) : ∃ σ',
    ((shutDown : ChainRun κ ω α Unit).run c).run self σ =
      (.ok (.ok (), { c.released with finished := true }), σ') :=
  ⟨_, by simp only [outcome_of_play, shutDown, play_bind, play_release, play_modify]; rfl⟩

/-- A step of a chain that is anchored breaks off where a function of the host does, or where its fuel ran
out and it would have gone on. -/
theorem crash_step (hl : c.Lists ids) (hneat : c.Neat) (h : c.Anchored)
    (hr : ((step act fuel self absolute).run c).run self σ = (.error crash, σ')) :
    (crash = .exhausted ∧ ∃ d,
      ((start >>= fun _ => pace act self absolute fuel).run c).run self σ = (.ok (.ok true, d), σ')) ∨
      ∃ n d σ₁,
        ((start >>= fun _ => pace act self absolute n).run c).run self σ = (.ok (.ok true, d), σ₁) ∧
          d.Raises act self crash := by
  rw [step, run_bind, run_start] at hr
  cases ho : c.opening with
  | error f =>
    rw [ho] at hr
    cases hr
  | ok r =>
    rw [ho] at hr
    simp only [run_bind, run_start, ho]
    refine (exists_of_rounds_crash hr).imp_right ?_
    rintro ⟨n, d, σ₁, hpace, hround⟩
    refine ⟨n, d, σ₁, hpace, ?_⟩
    obtain ⟨r', ho', htwin⟩ := (h.twin hl).opening ho
    obtain rfl : r = r' := Except.ok.inj (ho.symm.trans ho')
    have hend := htwin.pace hpace
    have htidy := (triple_pace_neat n r _ d (hneat.opening ho).1 ⟨_, _, hpace⟩).1
    refine ((accounts_round htidy).crashes hround).resolve_right ?_
    rintro ⟨id, hdangles, -⟩
    exact hend.anchored.not_dangles hend.stale id hdangles

theorem crash_behaviour {callback : Callback} (hl : c.Lists ids) (hneat : c.Neat) (h : c.Anchored)
    (hr : (Chain.behaviour act fuel callback self c).run self σ = (.error crash, σ')) :
    crash = .exhausted ∨ ∃ absolute n d σ₁,
      ((start >>= fun _ => pace act self absolute n).run c).run self σ = (.ok (.ok true, d), σ₁) ∧
        d.Raises act self crash := by
  cases callback with
  | init | attach | remove => cases hr
  | message m =>
    obtain ⟨d, hd⟩ := h.notice_ok m self σ
    cases hd.symm.trans hr
  | finish | detach =>
    obtain ⟨σ₁, hd⟩ := shutDown_ok self c σ
    cases hd.symm.trans hr
  | update delta absolute => exact (crash_step hl hneat h hr).imp And.left fun hstep => ⟨absolute, hstep⟩

variable (act) in
/-- The chain is in order, so it is between any two commands of a step of it, and no callback breaks off
because of a reference: only a function of the host breaks it off, or an end of its fuel. -/
structure Chain.Secure (c : Chain κ ω α) : Prop where
  intact : c.Intact
  within : ∀ self absolute n answer d,
    ((start >>= fun _ => pace act self absolute n).run c).Answers self (answer, d) →
      d.Intact ∧ ∀ goesOn, answer = .ok goesOn → d.started = true
  crash : ∀ fuel callback self σ crash σ',
    (Chain.behaviour act fuel callback self c).run self σ = (.error crash, σ') →
      crash = .exhausted ∨ ∃ absolute n d σ₁,
        ((start >>= fun _ => pace act self absolute n).run c).run self σ = (.ok (.ok true, d), σ₁) ∧
          d.Raises act self crash

theorem ChainRun.keeps_pace (n : Nat) : Keeps self c (pace act self absolute n) := by
  induction n generalizing c with
  | zero => exact keeps_pure _
  | succ n ih => exact (keeps_round absolute).bind fun _ => keeps_ite ih (keeps_pure _)

theorem Lived.secure (h : Lived act c) : c.Secure act := by
  obtain ⟨ids, hl⟩ := h.lists
  refine ⟨h.anchored.intact hl, ?_, fun fuel callback self σ crash σ' =>
    crash_behaviour hl h.neat h.anchored⟩
  rintro self absolute n answer d ⟨σ, σ', hr⟩
  rw [run_bind, run_start] at hr
  cases ho : c.opening with
  | error f =>
    rw [ho] at hr
    cases hr
    exact ⟨h.anchored.intact hl, nofun⟩
  | ok r =>
    rw [ho] at hr
    obtain ⟨r', ho', htwin⟩ := (h.anchored.twin hl).opening ho
    obtain rfl : r = r' := Except.ok.inj (ho.symm.trans ho')
    have hend := htwin.pace hr
    refine ⟨hend.anchored.intact hend.lists, ?_⟩
    rintro goesOn rfl
    exact Enduring.started ((keeps_pace n).here r _ d rfl ⟨σ, σ', hr⟩) (started_opening ho)

end Callbacks

namespace Chain

variable {c d : Chain κ ω α}

/-- The chain was started, or its component was initialized. -/
def Busy (c : Chain κ ω α) : Prop := c.started = true ∨ c.attached = true

theorem Busy.refused (h : c.Busy) : c.ensureIdle = .error (.chainRunning c.name) := by
  rcases h with h | h <;> simp [ensureIdle, h]

theorem idle_of_not_busy (h : ¬ c.Busy) : c.ensureIdle = .ok () := by
  rw [ensureIdle_ok, ← Bool.not_eq_true, ← Bool.not_eq_true]
  exact not_or.mp h

theorem Busy.relisted (h : c.Busy) (hr : Relisted c d) : d.Busy := by
  obtain ⟨-, -, hstarted, hattached, -⟩ := hr.same
  exact h.imp hstarted.trans hattached.trans

theorem Busy.prepared (h : c.Busy) (hp : Prepared c d) : d.Busy := h.imp hp.started hp.attached

end Chain

namespace Edit

variable [DecidableEq ι] {chains : ι → Chain κ ω α}

def involved : Edit ι κ ω α → List ι
  | mergeWith i donor _ | mergeAtBeginning i donor _ => [i, donor]
  | removeLast i => [i]
  | append .. | interruptIf .. => []

/-- The edit, with the chains as they are if it fails. -/
def attempt (edit : Edit ι κ ω α) (chains : ι → Chain κ ω α) :
    Except Failure Unit × (ι → Chain κ ω α) :=
  match edit.perform chains with
  | .ok after => (.ok (), after)
  | .error f => (.error f, chains)

theorem attempt_of_busy {edit : Edit ι κ ω α} (h : ∃ i ∈ edit.involved, (chains i).Busy) :
    ∃ i ∈ edit.involved, (chains i).Busy ∧
      edit.attempt chains = (.error (.chainRunning (chains i).name), chains) := by
  cases edit with
  | append | interruptIf =>
    obtain ⟨i, hi, -⟩ := h
    cases hi
  | removeLast target =>
    obtain ⟨i, hi, hb⟩ := h
    obtain rfl := List.mem_singleton.mp hi
    refine ⟨i, hi, hb, ?_⟩
    rw [attempt, perform, Chain.removeLast, hb.refused]
    rfl
  | mergeWith target donor _ =>
    by_cases ht : (chains target).Busy
    · refine ⟨target, List.mem_cons_self, ht, ?_⟩
      rw [attempt, perform, Chain.mergeWith, ht.refused]
      rfl
    · have hd : (chains donor).Busy := by simpa [involved, ht] using h
      refine ⟨donor, by simp [involved], hd, ?_⟩
      rw [attempt, perform, Chain.mergeWith, idle_of_not_busy ht, hd.refused]
      rfl
  | mergeAtBeginning target donor _ =>
    by_cases ht : (chains target).Busy
    · refine ⟨target, List.mem_cons_self, ht, ?_⟩
      rw [attempt, perform, Chain.mergeAtBeginning, ht.refused]
      rfl
    · have hd : (chains donor).Busy := by simpa [involved, ht] using h
      refine ⟨donor, by simp [involved], hd, ?_⟩
      rw [attempt, perform, Chain.mergeAtBeginning, idle_of_not_busy ht, hd.refused]
      rfl

end Edit

section Attempts

variable [Named κ] [DecidableEq ι] {act : α → Caller → Script κ ω (Except Failure Unit)}
  {chains between after : ι → Chain κ ω α}

/-- What is done to chains, one thing after the other: edits, some of which may fail, and callbacks.
Anything may happen to the scene and to the world of the host in between. -/
inductive Reached (act : α → Caller → Script κ ω (Except Failure Unit)) (chains : ι → Chain κ ω α) :
    (ι → Chain κ ω α) → Prop
  | start : Reached act chains chains
  | edited {between : ι → Chain κ ω α} (h : Reached act chains between) (edit : Edit ι κ ω α) :
      Reached act chains (edit.attempt between).2
  | called {between : ι → Chain κ ω α} {c : Chain κ ω α} (h : Reached act chains between) (i : ι)
      (fuel : Nat) (callback : Callback) (caller : Caller) {answer : Except Failure Unit}
      (hr : (Chain.behaviour act fuel callback caller (between i)).Answers caller (answer, c)) :
      Reached act chains (Function.update between i c)

structure Chain.Follows (act : α → Caller → Script κ ω (Except Failure Unit)) (c d : Chain κ ω α) :
    Prop where
  lived : Lived act d
  busy : c.Busy → d.Busy

theorem Lived.follows {c : Chain κ ω α} (h : Lived act c) : c.Follows act c := ⟨h, fun hb => hb⟩

theorem Lived.follows_idle {c d : Chain κ ω α} (h : Lived act d) (hc : c.ensureIdle = .ok ()) :
    c.Follows act d :=
  ⟨h, fun hb => by cases hc.symm.trans hb.refused⟩

theorem follows_update {target : ι} {c : Chain κ ω α} (hc : (chains target).Follows act c)
    (h : ∀ i, (chains i).Follows act (between i)) (i : ι) :
    (chains i).Follows act (Function.update between target c i) :=
  (Function.forall_update_iff between fun i d => (chains i).Follows act d).mpr ⟨hc, fun i _ => h i⟩ i

theorem Edit.follows_attempt (hall : ∀ i, Lived act (chains i)) (edit : Edit ι κ ω α) :
    ∀ i, (chains i).Follows act ((edit.attempt chains).2 i) := by
  have hsame (i : ι) : (chains i).Follows act (chains i) := (hall i).follows
  cases edit with
  | append target command =>
    exact follows_update ⟨(hall target).append command, fun hb => hb.relisted (relisted_append ..)⟩ hsame
  | interruptIf target holds =>
    exact follows_update ⟨(hall target).interruptIf holds, fun hb => hb⟩ hsame
  | mergeWith target donor different =>
    rw [attempt, perform]
    cases hm : (chains target).mergeWith (chains donor) with
    | error f => exact hsame
    | ok both =>
      obtain ⟨joined, left⟩ := both
      obtain ⟨⟨htarget, -⟩, hdonor, -⟩ := relisted_mergeWith hm
      exact follows_update
        (Lived.follows_idle (.donor (hall target) (hall donor) (.inl hm)) hdonor) <|
          follows_update (Lived.follows_idle (.merged (hall target) (hall donor) hm) htarget) hsame
  | mergeAtBeginning target donor different =>
    rw [attempt, perform]
    cases hm : (chains target).mergeAtBeginning (chains donor) with
    | error f => exact hsame
    | ok both =>
      obtain ⟨joined, left⟩ := both
      obtain ⟨⟨htarget, -⟩, hdonor, -⟩ := relisted_mergeAtBeginning hm
      exact follows_update
        (Lived.follows_idle (.donor (hall target) (hall donor) (.inr hm)) hdonor) <|
          follows_update (Lived.follows_idle (.mergedAtBeginning (hall target) (hall donor) hm) htarget)
            hsame
  | removeLast target =>
    rw [attempt, perform]
    cases hm : (chains target).removeLast with
    | error f => exact hsame
    | ok cut =>
      exact follows_update
        (Lived.follows_idle ((hall target).removedLast hm) (relisted_removeLast hm).1) hsame

theorem Reached.follows (h : Reached act chains after) (hall : ∀ i, Lived act (chains i)) :
    ∀ i, (chains i).Follows act (after i) := by
  induction h with
  | start => exact fun i => (hall i).follows
  | edited _ edit ih =>
    intro i
    have hnext := edit.follows_attempt (fun i => (ih i).lived) i
    exact ⟨hnext.lived, fun hb => hnext.busy ((ih i).busy hb)⟩
  | called _ target fuel callback caller hr ih =>
    refine follows_update ⟨(ih target).lived.called fuel callback caller hr, fun hb => ?_⟩ ih
    exact ((ih target).busy hb).prepared (prepared_behaviour hr)

theorem busy_behaviour {c d : Chain κ ω α} {fuel : Nat} {callback : Callback} {caller : Caller}
    {answer : Except Failure Unit}
    (hr : (Chain.behaviour act fuel callback caller c).Answers caller (answer, d))
    (h : callback = .init ∨ ∃ delta absolute r, callback = .update delta absolute ∧ c.opening = .ok r) :
    d.Busy := by
  obtain ⟨σ, σ', hr⟩ := hr
  rcases h with rfl | ⟨delta, absolute, r, rfl, ho⟩
  · cases hr
    exact .inr rfl
  · rw [Chain.behaviour, step, run_bind, run_start, ho] at hr
    have hkept : Keeps caller r (rounds act caller absolute fuel) := keeps_rounds absolute fuel
    have hend := hkept.here r answer d rfl ⟨σ, σ', hr⟩
    cases answer <;> exact .inl (Enduring.started hend (started_opening ho))

/-- Whatever is done to chains, in whatever order, all their references hold, and no step and no look at a
chain goes astray. A chain is busy from its initialization on, and from the moment its first step got past
its opening, and then it is neither joined nor cut: the attempt is refused, and changes nothing. -/
theorem anchoring_history (names : ι → String)
    (h : Reached act (fun i => { name := names i }) chains) :
    (∀ i, (chains i).Secure act) ∧
    (∀ i fuel callback caller answer c,
      (Chain.behaviour act fuel callback caller (chains i)).Answers caller (answer, c) →
        (callback = .init ∨
          ∃ delta absolute r, callback = .update delta absolute ∧ (chains i).opening = .ok r) → c.Busy) ∧
    ∀ after, Reached act chains after →
      (∀ i, (chains i).Busy → (after i).Busy) ∧
      ∀ edit : Edit ι κ ω α, (∃ i ∈ edit.involved, (chains i).Busy) →
        ∃ i ∈ edit.involved, (after i).Busy ∧
          edit.attempt after = (.error (.chainRunning (after i).name), after) := by
  have hall (i : ι) : Lived act (chains i) := (h.follows (fun i => .new (names i)) i).lived
  refine ⟨fun i => (hall i).secure, fun i fuel callback caller answer c => busy_behaviour, ?_⟩
  intro after hafter
  have hbusy (i : ι) (hb : (chains i).Busy) : (after i).Busy := (hafter.follows hall i).busy hb
  refine ⟨hbusy, ?_⟩
  rintro edit ⟨i, hi, hb⟩
  exact edit.attempt_of_busy ⟨i, hi, hbusy i hb⟩

end Attempts

/-- A lamp and a spare chain. The lamp cannot be started for want of the end of its branch, and it could
still get one from the spare chain. But that one is initialized by then, and stays as it is. -/
theorem anchoring_history_spare :
    let act : Unit → Caller → Script Probe Unit (Except Failure Unit) := fun _ _ => .done (.ok ())
    let names : Bool → String := fun b => if b then "spare" else "lamp"
    let join : Edit Bool Probe Unit Unit := .mergeWith false true (by decide)
    ∃ chains, Reached act (fun b => { name := names b }) chains ∧ (∀ b, (chains b).Secure act) ∧
      (chains false).opcodes = [.beginIf] ∧ (chains false).started = false ∧
      join.attempt chains = (.error (.chainRunning "spare"), chains) := by
  intro act names join
  let first : Edit Bool Probe Unit Unit := .append false (.beginIf fun w => (.ok true, w))
  let second : Edit Bool Probe Unit Unit := .append true .endIf
  have hbuilt : Reached act (fun b => { name := names b }) _ := (Reached.start.edited first).edited second
  have hfailed := hbuilt.called false 9 (.update 0 0) ⟨⟨0⟩, ⟨0⟩⟩ ⟨⟨{}, ()⟩, _, rfl⟩
  have hready := hfailed.called true 9 .init ⟨⟨0⟩, ⟨1⟩⟩ ⟨⟨{}, ()⟩, _, rfl⟩
  refine ⟨_, hready, (anchoring_history names hready).1, rfl, rfl, ?_⟩
  obtain ⟨i, -, hb, hrefused⟩ :=
    ((anchoring_history names hready).2.2 _ .start).2 join ⟨true, by decide, .inr rfl⟩
  cases i with
  | true => exact hrefused
  | false => exact (hb.elim Bool.false_ne_true Bool.false_ne_true).elim

end FrameChain
