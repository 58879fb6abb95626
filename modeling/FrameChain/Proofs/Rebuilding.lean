import FrameChain.Proofs.Chain.Built
import FrameChain.Proofs.Chain.Lockstep
import FrameChain.Proofs.History

set_option autoImplicit false

namespace FrameChain

open Chain ChainRun

variable {κ ω α : Type}

structure Chain.View where
  running : Bool
  finished : Bool
  current : Option Opcode
  opcodes : List Opcode
deriving DecidableEq, Repr

def Chain.view (c : Chain κ ω α) : View := ⟨c.isRunning, c.finished, c.currentOpcode?, c.opcodes⟩

/-- What can be seen of a call: what the chain did, one thing after the other, how it answered, what it
tells about itself then, and the scene and the world that it left. -/
structure Sighting (κ ω : Type) where
  interactions : List (Interaction κ ω)
  ending : Except Crash (Except Failure Unit × View)
  after : Setting κ ω

/-- What can be seen of calls one after the other. A call that crashes is the last one. -/
def sightings [Named κ] (act : α → Caller → Script κ ω (Except Failure Unit)) :
    List (Call κ ω) → Chain κ ω α → Setting κ ω → List (Sighting κ ω)
  | [], _, _ => []
  | call :: rest, c, σ =>
    let before := call.meanwhile σ
    let p := Chain.behaviour act call.fuel call.callback call.self c
    match p.run call.self before with
    | (.ok (answer, c), after) =>
      ⟨p.interactions call.self before, .ok (answer, c.view), after⟩ :: sightings act rest c after
    | (.error crash, after) => [⟨p.interactions call.self before, .error crash, after⟩]

section Twins

variable {ρ : NodeId → NodeId} {ids : List NodeId} {stale : Bool} {c c' : Chain κ ω α}

theorem Chain.Twin.view (h : Twin ρ ids stale c c') : c'.view = c.view := by
  have hcode : c'.currentOpcode? = c.currentOpcode? := by
    obtain ⟨hcur, hin⟩ := h.current
    rw [currentOpcode?, currentOpcode?, hcur]
    cases hc : c.current with
    | none => rfl
    | some id => exact h.opcode? (hin id hc)
  rw [Chain.view, Chain.view, isRunning, isRunning, h.started, h.finished, hcode, h.opcodes]

theorem sightings_twin [Named κ] (act : α → Caller → Script κ ω (Except Failure Unit))
    (h : Twin ρ ids stale c c') (calls : List (Call κ ω)) (σ : Setting κ ω) :
    sightings act calls c' σ = sightings act calls c σ := by
  induction calls generalizing stale c c' σ with
  | nil => rfl
  | cons call rest ih =>
    obtain ⟨hi, hs, ha⟩ := (matches_behaviour act h call.fuel call.callback call.self).run
      call.self (call.meanwhile σ)
    rw [sightings, sightings, hi]
    revert hs ha
    cases (Chain.behaviour act call.fuel call.callback call.self c).run call.self
      (call.meanwhile σ) with
    | mk e after =>
      cases (Chain.behaviour act call.fuel call.callback call.self c').run call.self
        (call.meanwhile σ) with
      | mk e' after' =>
        rintro rfl ha
        cases ha with
        | error crash => rfl
        | @ok e e' hend =>
          obtain ⟨answer, d⟩ := e
          obtain ⟨answer', d'⟩ := e'
          obtain ⟨rfl, stale', htwin⟩ := hend
          simp only [htwin.view, ih htwin]

end Twins

namespace Chain

structure Idle (c : Chain κ ω α) : Prop where
  started : c.started = false
  attached : c.attached = false
  finished : c.finished = false

structure Blank (c : Chain κ ω α) : Prop where
  current : c.current = none
  scopes : c.scopes = {}
  scratch : c.scratch = {}
  stale : c.jumpsStale = true

theorem Blank.relisted {c j : Chain κ ω α} (h : Blank c) (hj : Relisted c j) : Blank j := by
  rcases hj with rfl | ⟨nodes, head, tail, rfl⟩
  · exact h
  · exact ⟨h.current, h.scopes, h.scratch, rfl⟩

theorem started_opening {c d : Chain κ ω α} (ho : c.opening = .ok d) : d.started = true := by
  have hbegun (r : Chain κ ω α) :
      (if r.started then r else { r with started := true, current := r.head }).started = true := by
    cases hs : r.started
    · rfl
    · exact hs
  obtain ⟨-, r, -, rfl⟩ := opening_eq_ok_iff.mp ho
  exact hbegun r

end Chain

section Blank

variable [Named κ] {act : α → Caller → Script κ ω (Except Failure Unit)} {c c' : Chain κ ω α}

theorem blank_behaviour {fuel : Nat} {callback : Callback} {self : Caller}
    {answer : Except Failure Unit}
    (hr : (Chain.behaviour act fuel callback self c).Answers self (answer, c'))
    (h : c.started = false → Blank c) (hs : c'.started = false) : Blank c' := by
  cases callback with
  | init =>
    obtain ⟨σ, σ', hr⟩ := hr
    cases hr
    exact ⟨(h hs).current, (h hs).scopes, (h hs).scratch, (h hs).stale⟩
  | attach | remove =>
    obtain ⟨σ, σ', hr⟩ := hr
    cases hr
    exact h hs
  | update delta absolute =>
    rw [Chain.behaviour, step, run_bind, run_start] at hr
    cases ho : c.opening with
    | error f =>
      rw [ho] at hr
      obtain ⟨σ, σ', hr⟩ := hr
      cases hr
      exact h hs
    | ok d =>
      rw [ho] at hr
      have hrounds : Keeps self d (rounds act self absolute fuel) := keeps_rounds absolute fuel
      have hkept := hrounds.here d answer c' rfl hr
      have hstarted : c'.started = true := by
        cases answer <;> exact Enduring.started hkept (started_opening ho)
      cases hs.symm.trans hstarted
  | message m =>
    have hnotice : Keeps self c (notice m : ChainRun κ ω α Unit) := keeps_notice m
    have hkept := hnotice.here c answer c' rfl hr
    have hfresh : c.started = false := by
      cases hst : c.started with
      | false => rfl
      | true => cases answer <;> cases hs.symm.trans (Enduring.started hkept hst)
    -- A chain that has not started has no cursor, so there is nothing to notice.
    have hstill : (notice m : ChainRun κ ω α Unit).run c = .done (.ok (), c) := by
      simp [notice, run_bind, Script.bind, (h hfresh).current]
    obtain ⟨σ, σ', hr⟩ := hr
    rw [Chain.behaviour, hstill] at hr
    cases hr
    exact h hfresh
  | finish | detach =>
    have hend : Triple self (· = c) shutDown (fun _ d => d = { c.released with finished := true })
        fun _ d => d = { c.released with finished := true } := by
      refine triple_bind triple_release fun _ => triple_modify ?_
      rintro _ ⟨_, rfl, rfl⟩
      rfl
    have hc' : c' = { c.released with finished := true } := by
      have hends := hend c answer c' rfl hr
      cases answer <;> exact hends
    subst hc'
    exact ⟨rfl, rfl, rfl, (h hs).stale⟩

theorem Lived.blank (h : Lived act c) (hs : c.started = false) : Blank c := by
  refine h.along (P := fun c => c.started = false → Blank c) (fun _ _ => ⟨rfl, rfl, rfl, rfl⟩) ?_ ?_ ?_ hs
  · exact fun hblank hj hs => (hblank (hj.same.2.2.1.symm.trans hs)).relisted hj
  · exact fun holds hblank hs =>
      ⟨(hblank hs).current, (hblank hs).scopes, (hblank hs).scratch, (hblank hs).stale⟩
  · exact fun fuel callback self answer _ hblank hr hs => blank_behaviour hr hblank hs

theorem Lived.placed (h : Lived act c) (hs : c.started = false) : Placed c.listing c := by
  obtain ⟨ids, hl⟩ := h.lists
  have hblank := h.blank hs
  exact {
    listing := rfl
    threaded := hl.threaded
    fresh := fun _ => by rw [hblank.scopes]
    resolved := fun hst => absurd (hs.symm.trans hst) Bool.false_ne_true
    reaches := fun hst => absurd (hst.symm.trans hblank.stale) Bool.false_ne_true
    stands := fun hrun => absurd (hs.symm.trans (isRunning_started hrun)) Bool.false_ne_true }

end Blank

theorem exists_renaming {xs ys : List NodeId} (hd : xs.Nodup) (hl : ys.length = xs.length) :
    ∃ ρ : NodeId → NodeId, ys = xs.map ρ := by
  refine ⟨fun id => ys[xs.idxOf id]?.getD 0, List.ext_getElem (by simpa using hl) fun i hi hi' => ?_⟩
  have hx : i < xs.length := hl ▸ hi
  simp [hd.idxOf_getElem i hx, hi]

theorem map_eq_map_some {β γ : Type} {f : β → Option γ} {l : List β} (h : ∀ b ∈ l, (f b).isSome) :
    l.map f = (l.filterMap f).map some := by
  induction l with
  | nil => rfl
  | cons b rest ih =>
    obtain ⟨hb, hrest⟩ := List.forall_mem_cons.mp h
    obtain ⟨a, ha⟩ := Option.isSome_iff_exists.mp hb
    rw [List.map_cons, ih hrest, List.filterMap_cons_some ha, List.map_cons, ha]

namespace Chain

variable {c c' : Chain κ ω α} {ids ids' : List NodeId}

theorem Lists.map_command (h : c.Lists ids) :
    ids.map (fun id => c.nodes[id]?.map (·.command)) = c.commands.map some := by
  rw [h.commands, commandsAt]
  refine map_eq_map_some fun id hid => ?_
  rw [Array.getElem?_eq_getElem (h.linked.inside id hid)]
  rfl

theorem exists_twin (h : c.Lists ids) (h' : c'.Lists ids') (hb : Blank c) (hb' : Blank c')
    (hi : c.Idle) (hi' : c'.Idle) (hn : c'.name = c.name) (hint : c'.interrupts = c.interrupts)
    (hc : c'.commands = c.commands) : ∃ ρ, Twin ρ ids true c c' := by
  have hmap : ids'.map (fun id => c'.nodes[id]?.map (·.command)) =
      ids.map fun id => c.nodes[id]?.map (·.command) := by
    rw [h'.map_command, h.map_command, hc]
  obtain ⟨ρ, rfl⟩ := exists_renaming h.distinct (by simpa using congrArg List.length hmap)
  rw [List.map_map] at hmap
  refine ⟨ρ, h, h', List.map_inj_left.mp hmap, nofun, ?_, ?_, ?_, hb.stale, ?_⟩
  · rw [hb.current, hb'.current]
    exact ⟨rfl, nofun⟩
  · rw [hb.scopes, hb'.scopes]
    rfl
  · rw [hb.scopes]
    nofun
  · rw [shell, shell, hn, hint, hb.stale, hb'.stale, hb.scratch, hb'.scratch, hi.started, hi'.started,
      hi.attached, hi'.attached, hi.finished, hi'.finished]

def direct (name : String) (interrupts : List (HostFun ω Bool)) (commands : List (Command κ ω α)) :
    Chain κ ω α := commands.foldl Chain.append { name, interrupts }

theorem relisted_foldl (c : Chain κ ω α) (commands : List (Command κ ω α)) :
    Relisted c (commands.foldl Chain.append c) := by
  induction commands generalizing c with
  | nil => exact .inl rfl
  | cons command rest ih => exact (relisted_append c command).trans (ih _)

theorem Lists.commands_foldl (h : c.Lists ids) (commands : List (Command κ ω α)) :
    (commands.foldl Chain.append c).commands = c.commands ++ commands := by
  induction commands generalizing c ids with
  | nil => exact (List.append_nil _).symm
  | cons command rest ih =>
    rw [List.foldl_cons, ih (h.append command), h.commands_append, List.append_assoc]
    rfl

theorem commands_direct (name : String) (interrupts : List (HostFun ω Bool))
    (commands : List (Command κ ω α)) : (direct name interrupts commands).commands = commands := by
  have hl : Lists ({ name, interrupts } : Chain κ ω α) [] := ⟨.nil, rfl, rfl, trivial⟩
  exact hl.commands_foldl commands

theorem idle_of_relisted {j : Chain κ ω α} (h : c.Idle) (hj : Relisted c j) : j.Idle := by
  obtain ⟨-, -, hs, ha, hf⟩ := hj.same
  exact ⟨hs.trans h.started, ha.trans h.attached, hf.trans h.finished⟩

theorem idle_direct (name : String) (interrupts : List (HostFun ω Bool))
    (commands : List (Command κ ω α)) : (direct name interrupts commands).Idle :=
  idle_of_relisted ⟨rfl, rfl, rfl⟩ (relisted_foldl _ commands)

theorem mergeWith_of_idle (h : c.Idle) (h' : c'.Idle) : ∃ j e, c.mergeWith c' = .ok (j, e) :=
  exists_mergeWith (ensureIdle_ok.mpr ⟨h.started, h.attached⟩)
    (ensureIdle_ok.mpr ⟨h'.started, h'.attached⟩)

theorem mergeAtBeginning_of_idle (h : c.Idle) (h' : c'.Idle) :
    ∃ j e, c.mergeAtBeginning c' = .ok (j, e) :=
  exists_mergeAtBeginning (ensureIdle_ok.mpr ⟨h.started, h.attached⟩)
    (ensureIdle_ok.mpr ⟨h'.started, h'.attached⟩)

end Chain

section Runs

variable [Named κ] {act : α → Caller → Script κ ω (Except Failure Unit)} {c c' x y : Chain κ ω α}

theorem lived_direct (name : String) (interrupts : List (HostFun ω Bool))
    (commands : List (Command κ ω α)) : Lived act (direct name interrupts commands) := by
  have hadd (c : Chain κ ω α) : interrupts.foldl Chain.interruptIf c =
      { c with interrupts := c.interrupts ++ interrupts } := by
    induction interrupts generalizing c with
    | nil => simp
    | cons holds rest ih => simp [ih, interruptIf]
  have hlived (c : Chain κ ω α) (h : Lived act c) :
      Lived act (interrupts.foldl Chain.interruptIf c) := by
    clear hadd
    induction interrupts generalizing c with
    | nil => exact h
    | cons holds rest ih => exact ih _ (h.interruptIf holds)
  have hbare := hlived { name } (.new name)
  rw [hadd] at hbare
  exact hbare.foldl_append commands

/-- Chains that agree in their name, their interrupts and their commands do the same. -/
theorem sightings_eq (h : Lived act c) (h' : Lived act c') (hi : c.Idle) (hi' : c'.Idle)
    (hn : c'.name = c.name) (hint : c'.interrupts = c.interrupts) (hc : c'.commands = c.commands)
    (calls : List (Call κ ω)) (σ : Setting κ ω) :
    sightings act calls c' σ = sightings act calls c σ := by
  obtain ⟨ids, hl⟩ := h.lists
  obtain ⟨ids', hl'⟩ := h'.lists
  obtain ⟨ρ, htwin⟩ := exists_twin hl hl' (h.blank hi.started) (h'.blank hi'.started) hi hi' hn hint hc
  exact sightings_twin act htwin calls σ

theorem sightings_relisted {j : Chain κ ω α} (hi : x.Idle) (hj : Lived act j) (hr : Relisted x j)
    (calls : List (Call κ ω)) (σ : Setting κ ω) :
    sightings act calls j σ =
      sightings act calls (direct x.name x.interrupts j.commands) σ := by
  obtain ⟨hn, hint, -⟩ := hr.same
  obtain ⟨hn', hint', -⟩ := (relisted_foldl { name := x.name, interrupts := x.interrupts }
    j.commands).same
  exact sightings_eq (lived_direct _ _ _) hj (idle_direct _ _ _) (idle_of_relisted hi hr)
    (hn.trans hn'.symm) (hint.trans hint'.symm) (commands_direct _ _ _).symm calls σ

/-- Only the commands of a chain matter, not how it came by them. Two idle chains with the same name, the
same interrupts and the same commands cannot be told apart in any history of their callbacks. Idle chains
can always be joined, and the result runs as the chain that is given the commands of both in their
order. -/
theorem rebuilding (act : α → Caller → Script κ ω (Except Failure Unit)) :
    (∀ c c' : Chain κ ω α, Lived act c → Lived act c' → c.Idle → c'.Idle → c'.name = c.name →
      c'.interrupts = c.interrupts → c'.commands = c.commands → ∀ calls σ,
        sightings act calls c' σ = sightings act calls c σ) ∧
    ∀ x y : Chain κ ω α, Lived act x → Lived act y → x.Idle → y.Idle →
      (∃ j e, x.mergeWith y = .ok (j, e) ∧ ∀ calls σ, sightings act calls j σ =
        sightings act calls (direct x.name x.interrupts (x.commands ++ y.commands)) σ) ∧
      ∃ j e, x.mergeAtBeginning y = .ok (j, e) ∧ ∀ calls σ, sightings act calls j σ =
        sightings act calls (direct x.name x.interrupts (y.commands ++ x.commands)) σ := by
  refine ⟨fun c c' h h' hi hi' hn hint hc => sightings_eq h h' hi hi' hn hint hc, ?_⟩
  intro x y hx hy hi hi'
  obtain ⟨ids, hl⟩ := hx.lists
  constructor
  · obtain ⟨j, e, hm⟩ := mergeWith_of_idle hi hi'
    have hjoined := hl.mergeWith hm
    refine ⟨j, e, hm, fun calls σ => ?_⟩
    rw [← hjoined.commands_eq]
    exact sightings_relisted hi (.merged hx hy hm) hjoined.relisted calls σ
  · obtain ⟨j, e, hm⟩ := mergeAtBeginning_of_idle hi hi'
    have hjoined := hl.mergeAtBeginning hm
    refine ⟨j, e, hm, fun calls σ => ?_⟩
    rw [← hjoined.commands_eq]
    exact sightings_relisted hi (.mergedAtBeginning hx hy hm) hjoined.relisted calls σ

end Runs

/-- A loop without its end, and the end alone. The two make a chain that blinks; an end that was taken
off again leaves a node behind and nothing else. -/
theorem rebuilding_blink :
    let act : Unit → Caller → Script Probe Unit (Except Failure Unit) := fun _ _ => .done (.ok ())
    let loop : List (Command Probe Unit Unit) :=
      [.beginWhile fun w => (.ok true, w), .waitFrames ⟨.value 0, none⟩]
    let x := direct "blink" [] loop
    let y := direct "rest" [] [.endWhile]
    (∃ j e, x.mergeWith y = .ok (j, e) ∧ ∀ calls σ, sightings act calls j σ =
      sightings act calls (direct "blink" [] (loop ++ [.endWhile])) σ) ∧
    ∃ c, (x.append .endWhile).removeLast = .ok c ∧ c.nodes.size = 3 ∧
      ∀ calls σ, sightings act calls c σ = sightings act calls x σ := by
  intro act loop x y
  have hx : Lived act x := lived_direct _ _ _
  have hy : Lived act y := lived_direct _ _ _
  have hi : x.Idle := idle_direct _ _ _
  constructor
  · obtain ⟨j, e, hm, hj⟩ := ((rebuilding act).2 x y hx hy hi (idle_direct _ _ _)).1
    refine ⟨j, e, hm, fun calls σ => ?_⟩
    rw [hj, commands_direct, commands_direct]
    rfl
  · obtain ⟨c, hc, hsize⟩ :
        ∃ c, (x.append .endWhile).removeLast = .ok c ∧ c.nodes.size = 3 := ⟨_, rfl, rfl⟩
    have hlived : Lived act (x.append .endWhile) := hx.append _
    obtain ⟨ids, hl⟩ := hx.lists
    obtain ⟨ids', hl'⟩ := hlived.lists
    obtain ⟨-, hrelisted, -, hcommands⟩ := hl'.removeLast hc
    have hj : Relisted x c := (relisted_append x _).trans hrelisted
    rw [hl.commands_append, List.dropLast_concat] at hcommands
    obtain ⟨hn, hint, -⟩ := hj.same
    exact ⟨c, hc, hsize, (rebuilding act).1 x c hx (hlived.removedLast hc) hi (idle_of_relisted hi hj)
      hn hint hcommands⟩

end FrameChain
