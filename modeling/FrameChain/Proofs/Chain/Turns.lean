import FrameChain.Proofs.Chain.Neat

set_option autoImplicit false

/-! A neat chain whose cursor is on a simple command has an errand there, and its turn is a visit to the
errand. The commands that open, close or branch have one normal form each. -/
namespace FrameChain

open Chain ChainRun

variable {κ ω α : Type}

def Chain.command? (c : Chain κ ω α) (id : NodeId) : Option (Command κ ω α) :=
  c.nodes[id]?.map (·.command)

theorem Chain.command?_of_node {c : Chain κ ω α} {id : NodeId} {n : Node κ ω α}
    (hn : c.nodes[id]? = some n) : c.command? id = some n.command := by
  rw [command?, hn, Option.map_some]

theorem Chain.opcode?_eq (c : Chain κ ω α) (id : NodeId) :
    c.opcode? id = (c.command? id).map Command.opcode := by
  rw [opcode?, command?, Option.map_map]
  rfl

theorem ChainRun.command?_placed (c : Chain κ ω α) (id i : NodeId) (command : Command κ ω α)
    (scratch : Scratch) : (placed c id command scratch).command? i =
      if id = i then (c.command? i).map fun _ => command else c.command? i := by
  rw [command?, placed, modifyNode, Array.getElem?_modify]
  split
  · rw [command?, Option.map_map, Option.map_map]
    rfl
  · rfl

theorem Memo.Suits.exists_errand {command : Command κ ω α} {s : Scratch}
    (h : command.note.memo.Suits s) (hk : command.opcode.kind = .plain) :
    ∃ e : Errand κ ω α, e.command = command ∧ e.scratch = s := by
  generalize hm : command.note.memo = memo at h
  cases command with
  | call action => cases hm; exact ⟨.call action, rfl, h.nothing.symm⟩
  | addComponent source target => cases hm; exact ⟨.addComponent source target, rfl, h.nothing.symm⟩
  | removeComponent selector target =>
    cases hm
    exact ⟨.removeComponent selector target, rfl, h.nothing.symm⟩
  | removeEntitiesWhere condition =>
    cases hm
    exact ⟨.removeEntitiesWhere condition, rfl, h.nothing.symm⟩
  | removeEntity target => cases hm; exact ⟨.removeEntity target, rfl, h.nothing.symm⟩
  | sendMessage key data => cases hm; exact ⟨.sendMessage key data, rfl, h.nothing.symm⟩
  | waitUntil holds => cases hm; exact ⟨.waitUntil holds, rfl, h.nothing.symm⟩
  | waitTime seconds =>
    cases hm
    cases h with
    | empty => exact ⟨.waitTime seconds none, rfl, rfl⟩
    | start since => exact ⟨.waitTime seconds (some since), rfl, rfl⟩
  | waitFrames frames =>
    cases hm
    cases h with
    | empty => exact ⟨.waitFrames frames none, rfl, rfl⟩
    | frames waited => exact ⟨.waitFrames frames (some waited), rfl, rfl⟩
  | waitForAll set =>
    cases hm
    cases h with
    | empty => exact ⟨.waitForMembers .all set none, rfl, rfl⟩
    | members ids => exact ⟨.waitForMembers .all set (some ids), rfl, rfl⟩
  | waitForFirst set =>
    cases hm
    cases h with
    | empty => exact ⟨.waitForMembers .first set none, rfl, rfl⟩
    | members ids => exact ⟨.waitForMembers .first set (some ids), rfl, rfl⟩
  | waitForMessage key =>
    cases hm
    cases h with
    | empty => exact ⟨.waitForMessage key none none, rfl, rfl⟩
    | message key arrived => exact ⟨.waitForMessage key none (some arrived), rfl, rfl⟩
  | waitForMessageWhere key condition =>
    cases hm
    cases h with
    | empty => exact ⟨.waitForMessage key (some condition) none, rfl, rfl⟩
    | message key arrived => exact ⟨.waitForMessage key (some condition) (some arrived), rfl, rfl⟩
  | _ => cases hk

def Visit.turned (c : Chain κ ω α) (id : NodeId) : Visit κ ω α → Except Failure Bool × Chain κ ω α
  | finished e => (.ok true, { placed c id e.fresh.command {} with current := c.next? id })
  | waiting e => (.ok false, placed c id e.command e.scratch)
  | failed f e => (.error f, placed c id e.command e.scratch)

theorem Visit.command?_turned_ne {c : Chain κ ω α} {id i : NodeId} (hi : i ≠ id)
    (v : Visit κ ω α) : (v.turned c id).2.command? i = c.command? i := by
  have hplaced (command : Command κ ω α) :
      (ChainRun.placed c id command {}).command? i = c.command? i := by
    rw [ChainRun.command?_placed, if_neg (Ne.symm hi)]
  cases v with
  | finished e | waiting e | failed f e => exact hplaced _

theorem Visit.command?_turned {c : Chain κ ω α} {id : NodeId} {here : Node κ ω α} {v : Visit κ ω α}
    (hn : c.nodes[id]? = some here) :
    (v.turned c id).2.command? id = some v.errand.fresh.command ∨
      (v.turned c id).2.command? id = some v.errand.command := by
  have hplaced (command : Command κ ω α) : (ChainRun.placed c id command {}).command? id = some command := by
    rw [ChainRun.command?_placed, if_pos rfl, command?_of_node hn, Option.map_some]
  cases v with
  | finished e => exact .inl (hplaced _)
  | waiting e | failed f e => exact .inr (hplaced _)

namespace ChainRun

variable {c : Chain κ ω α} {id : NodeId} {here : Node κ ω α}

theorem run_settle_finished (hn : c.nodes[id]? = some here) (e : Errand κ ω α) :
    (settle id .advance).run (placed c id e.command {}) =
      .done ((Visit.finished e).turned c id) := by
  have hleft : (placed c id e.command {}).modifyNode id (fun node =>
      if node.command.opcode = .beginRepeat then node
      else { node with command := node.command.reset }) = placed c id e.fresh.command {} := by
    refine (modifyNode_congr (getElem?_placed hn e.command {})
      (g := fun node => { node with command := e.fresh.command }) ?_).trans
        (placed_placed c id e.command e.fresh.command {} {})
    rw [if_neg (Errand.opcode_command_ne e), Errand.command_fresh]
  have hnext : (placed c id e.fresh.command {}).nodes[id]? = _ := getElem?_placed hn e.fresh.command {}
  simp only [settle, leave, run_bind, run_modify, Script.bind, hleft, moveAfter, run_node_of hnext,
    run_pure, Visit.turned, next?, hn, Option.bind_some]

theorem run_turn_errand (hn : c.nodes[id]? = some here)
    (act : α → Caller → Script κ ω (Except Failure Unit)) (self : Caller) (absolute : Seconds)
    {e : Errand κ ω α} (hc : e.command = here.command) (hs : e.scratch = c.scratch) :
    (turn act self absolute id).run c =
      (e.visit act self absolute c.name).bind fun v => .done (v.turned c id) := by
  rw [turn, run_bind, run_dispatch_of_errand hn act self absolute hc.symm hs.symm, Script.bind_assoc]
  congr 1
  funext v
  cases v with
  | finished e' => exact run_settle_finished hn e'
  | waiting e' => rfl
  | failed f e' => rfl

def popped (c : Chain κ ω α) (rest : List NodeId) : Chain κ ω α := { c with scopes := ⟨rest⟩ }

def closing (c : Chain κ ω α) (closer : Opcode) (opener : NodeId) (rest : List NodeId) :
    Command κ ω α → Script κ ω (Except Failure Flow × Chain κ ω α)
  | .beginRepeat times infinite =>
    if closer = .endRepeat then
      if infinite then return (.ok (.jump opener), popped c rest)
      else do
        let (n, resolved) ← times.resolve
        if 1 < n then
          return (.ok (.jump opener), placed (popped c rest) opener
            (.beginRepeat { resolved with cached := some (n - 1) } false) c.scratch)
        else
          return (.ok .advance, placed (popped c rest) opener (.beginRepeat times.reset false) c.scratch)
    else return (.error (.scopeMismatch c.name .beginRepeat closer), popped c rest)
  | .beginWhile holds =>
    if closer = .endWhile then do
      return (.ok (if ← .host holds then .jump opener else .advance), popped c rest)
    else return (.error (.scopeMismatch c.name .beginWhile closer), popped c rest)
  | .beginInterval _ =>
    if closer = .endInterval then return (.ok (.jump opener), popped c rest)
    else return (.error (.scopeMismatch c.name .beginInterval closer), popped c rest)
  | other => return (.error (.scopeMismatch c.name other.opcode closer), popped c rest)

def skipping (c : Chain κ ω α) (here : Node κ ω α) : Except Failure Flow × Chain κ ω α :=
  match here.jump with
  | some target => (.ok (.jumpPast target), c)
  | none => (.error (.unmatchedCommand c.name here.command.opcode .endIf), c)

/-- What a command that opens, closes or branches does. -/
def steering (c : Chain κ ω α) (absolute : Seconds) (id : NodeId) (here : Node κ ω α) :
    Script κ ω (Except Failure Flow × Chain κ ω α) :=
  match here.command with
  | .beginRepeat times infinite => do
    let (n, resolved) ← times.resolve
    let entered := placed c id
      (.beginRepeat resolved (if times.cached.isNone then n == 0 else infinite)) c.scratch
    return (.ok .advance, { entered with scopes := c.scopes.push id })
  | .beginWhile _ => return (.ok .advance, { c with scopes := c.scopes.push id })
  | .beginInterval seconds => do
    let (limit, resolved) ← seconds.resolve
    let since := c.scratch.waitStart.getD absolute
    if absolute - since ≥ limit then
      let entered := placed c id (.beginInterval resolved) { c.scratch with waitStart := none }
      return (.ok .advance, { entered with scopes := c.scopes.push id })
    else
      return (.ok .suspend,
        placed c id (.beginInterval resolved) { c.scratch with waitStart := some since })
  | .beginIf holds => do
    if ← .host holds then return (.ok .advance, c) else return skipping c here
  | .otherwise => return skipping c here
  | .endIf => return (.ok .advance, c)
  | closer =>
    match c.scopes.entries with
    | [] => return (.error (.emptyScope c.name closer.opcode), c)
    | opener :: rest =>
      match c.nodes[opener]? with
      | none => .crash (.dangling opener)
      | some n => closing c closer.opcode opener rest n.command

theorem run_jumpPast (c : Chain κ ω α) {here : Node κ ω α} {opcode : Opcode}
    (ho : here.command.opcode = opcode) :
    (jumpPast here.jump opcode : ChainRun κ ω α Flow).run c = .done (skipping c here) := by
  subst ho
  cases hj : here.jump <;> simp only [skipping, hj] <;> rfl

/-- The ends of blocks differ in what they do with an opener of their kind only. -/
theorem run_closing (c : Chain κ ω α) {closer : Opcode}
    {goOn : NodeId → Node κ ω α → ChainRun κ ω α Flow}
    (h : ∀ opener rest n, (goOn opener n).run (popped c rest) = closing c closer opener rest n.command) :
    (do
      let opener ← closeScope closer
      let n ← node opener
      goOn opener n : ChainRun κ ω α Flow).run c =
      match c.scopes.entries with
      | [] => .done (.error (.emptyScope c.name closer), c)
      | opener :: rest =>
        match c.nodes[opener]? with
        | none => .crash (.dangling opener)
        | some n => closing c closer opener rest n.command := by
  cases hs : c.scopes.entries with
  | nil =>
    have hpop : c.scopes.pop? = none := by rw [Scopes.pop?, hs]
    simp only [closeScope, run_bind, run_chain, Script.bind, hpop, run_throw]
  | cons opener rest =>
    have hpop : c.scopes.pop? = some (opener, ⟨rest⟩) := by rw [Scopes.pop?, hs]
    have hclose : (closeScope closer : ChainRun κ ω α NodeId).run c =
        .done (.ok opener, popped c rest) := by
      simp only [closeScope, run_bind, run_chain, Script.bind, hpop, run_set, run_pure]
      rfl
    rw [run_bind, hclose]
    simp only [Script.bind, run_bind]
    cases hn : c.nodes[opener]? with
    | none =>
      have hnode : (node opener : ChainRun κ ω α _).run (popped c rest) = .crash (.dangling opener) := by
        simp only [node, run_bind, run_chain, Script.bind, popped, hn]
        rfl
      rw [hnode]
      rfl
    | some n =>
      rw [run_node_of (c := popped c rest) hn]
      exact h opener rest n

theorem run_openInterval (c : Chain κ ω α) (absolute : Seconds) (seconds : Lazy ω Seconds)
    (hc : here.command = .beginInterval seconds) :
    (openInterval absolute id seconds : ChainRun κ ω α Flow).run c = steering c absolute id here := by
  have hscratch (f : Node κ ω α → Node κ ω α) : (c.modifyNode id f).scratch = c.scratch := rfl
  simp only [steering, hc, openInterval, run_bind, run_script, Script.bind_assoc, Script.bind_eq]
  congr 1
  funext answer
  simp only [Script.bind, setCommand, run_modify, waitStart, run_bind, scratch, run_chain, run_pure,
    run_modifyScratch, hscratch]
  by_cases hp : absolute - c.scratch.waitStart.getD absolute ≥ answer.1
  · rw [if_pos hp, if_pos hp]
    rfl
  · rw [if_neg hp, if_neg hp]
    rfl

theorem run_closeRepeat (c : Chain κ ω α) (absolute : Seconds) (hc : here.command = .endRepeat) :
    (closeRepeat : ChainRun κ ω α Flow).run c = steering c absolute id here := by
  simp only [steering, hc]
  refine run_closing c fun opener rest n => ?_
  cases n.command with
  | beginRepeat times infinite =>
    cases infinite with
    | true => rfl
    | false =>
      simp only [run_bind, run_script, Script.bind_assoc, closing, Script.bind_eq]
      congr 1
      funext answer
      by_cases hp : 1 < answer.1
      · simp only [Script.bind, if_pos hp]
        rfl
      · simp only [Script.bind, if_neg hp]
        rfl
  | _ => rfl

theorem run_closeWhile (c : Chain κ ω α) (absolute : Seconds) (hc : here.command = .endWhile) :
    (closeWhile : ChainRun κ ω α Flow).run c = steering c absolute id here := by
  simp only [steering, hc]
  refine run_closing c fun opener rest n => ?_
  cases n.command with
  | beginWhile holds =>
    simp only [run_bind, run_script, Script.bind_assoc, closing, Script.bind_eq]
    congr 1
    funext answer
    cases answer <;> rfl
  | _ => rfl

theorem run_closeInterval (c : Chain κ ω α) (absolute : Seconds) (hc : here.command = .endInterval) :
    (closeInterval : ChainRun κ ω α Flow).run c = steering c absolute id here := by
  simp only [steering, hc]
  refine run_closing c fun opener rest n => ?_
  cases n.command <;> rfl

theorem run_dispatch_control (hn : c.nodes[id]? = some here)
    (act : α → Caller → Script κ ω (Except Failure Unit)) (self : Caller) (absolute : Seconds)
    (hk : here.command.opcode.kind ≠ .plain) :
    (dispatch act self absolute id).run c = steering c absolute id here := by
  rw [dispatch, run_bind, run_node_of hn]
  simp only [Script.bind]
  cases hcmd : here.command with
  | beginRepeat times infinite =>
    simp only [steering, hcmd, openRepeat, run_bind, run_script, Script.bind_assoc, Script.bind]
    rfl
  | beginWhile holds =>
    simp only [steering, hcmd]
    rfl
  | beginInterval seconds => exact run_openInterval c absolute seconds hcmd
  | beginIf holds =>
    simp only [steering, hcmd, run_bind, run_script, Script.bind_assoc, Script.bind_eq]
    congr 1
    funext answer
    cases answer with
    | true => rfl
    | false => exact run_jumpPast c (by rw [hcmd]; rfl)
  | otherwise =>
    simp only [steering, hcmd]
    exact run_jumpPast c (by rw [hcmd]; rfl)
  | endIf =>
    simp only [steering, hcmd]
    rfl
  | endRepeat => exact run_closeRepeat c absolute hcmd
  | endWhile => exact run_closeWhile c absolute hcmd
  | endInterval => exact run_closeInterval c absolute hcmd
  | _ => exact absurd (by rw [hcmd]; rfl) hk

end ChainRun

theorem Chain.Neat.exists_errand {c : Chain κ ω α} (h : c.Neat) {id : NodeId} {here : Node κ ω α}
    (hcur : c.current = some id) (hn : c.nodes[id]? = some here)
    (hk : here.command.opcode.kind = .plain) :
    ∃ e : Errand κ ω α, e.command = here.command ∧ e.scratch = c.scratch := by
  have hs := h.suits
  rw [memo_of_node hcur hn] at hs
  exact hs.exists_errand hk

namespace ChainRun

section Interrupts

variable {c : Chain κ ω α} {id : NodeId} {here : Node κ ω α}

variable (interrupts : List (HostFun ω Bool))

theorem run_leave_moveAfter_interrupts (id target : NodeId) (c : Chain κ ω α) :
    (do
      leave id
      moveAfter target
      return true : ChainRun κ ω α Bool).run { c with interrupts } =
      ((do
        leave id
        moveAfter target
        return true : ChainRun κ ω α Bool).run c).bind fun out =>
          .done (out.1, { out.2 with interrupts }) := by
  simp only [leave, moveAfter, node, run_bind, run_modify, run_chain, Script.bind, modifyNode]
  cases (Array.modify c.nodes id _)[target]? with
  | none => rfl
  | some past => rfl

theorem run_settle_interrupts (flow : Flow) (c : Chain κ ω α) :
    (settle id flow).run { c with interrupts } =
      ((settle id flow).run c).bind fun out => .done (out.1, { out.2 with interrupts }) := by
  cases flow with
  | advance => exact run_leave_moveAfter_interrupts interrupts id id c
  | jumpPast target => exact run_leave_moveAfter_interrupts interrupts id target c
  | jump target | suspend => rfl

theorem closing_interrupts (c : Chain κ ω α) (closer : Opcode) (opener : NodeId) (rest : List NodeId)
    (command : Command κ ω α) : closing { c with interrupts } closer opener rest command =
      (closing c closer opener rest command).bind fun out => .done (out.1, { out.2 with interrupts }) := by
  cases command with
  | beginRepeat times infinite =>
    rw [closing, closing]
    split
    · cases infinite with
      | true => rfl
      | false =>
        simp only [Bool.false_eq_true, if_false, Script.bind_eq, Script.bind_assoc]
        congr 1
        funext answer
        by_cases h : 1 < answer.1
        · simp only [if_pos h]
          rfl
        · simp only [if_neg h]
          rfl
    · rfl
  | beginWhile holds =>
    rw [closing, closing]
    split
    · simp only [Script.bind_eq, Script.bind_assoc]
      rfl
    · rfl
  | beginInterval seconds =>
    rw [closing, closing]
    split <;> rfl
  | _ => rfl

theorem steering_interrupts (absolute : Seconds) (here : Node κ ω α) (c : Chain κ ω α) :
    steering { c with interrupts } absolute id here =
      (steering c absolute id here).bind fun out => .done (out.1, { out.2 with interrupts }) := by
  have hskip : skipping { c with interrupts } here =
      ((skipping c here).1, { (skipping c here).2 with interrupts }) := by
    unfold skipping
    cases here.jump <;> rfl
  have hclose (closer : Opcode) : (match c.scopes.entries with
      | [] => .done (.error (.emptyScope c.name closer), { c with interrupts })
      | opener :: rest =>
        match c.nodes[opener]? with
        | none => .crash (.dangling opener)
        | some n => closing { c with interrupts } closer opener rest n.command :
      Script κ ω (Except Failure Flow × Chain κ ω α)) =
      Script.bind (match c.scopes.entries with
      | [] => .done (.error (.emptyScope c.name closer), c)
      | opener :: rest =>
        match c.nodes[opener]? with
        | none => .crash (.dangling opener)
        | some n => closing c closer opener rest n.command) fun out =>
          .done (out.1, { out.2 with interrupts }) := by
    cases c.scopes.entries with
    | nil => rfl
    | cons opener rest =>
      simp only
      cases c.nodes[opener]? with
      | none => rfl
      | some n => exact closing_interrupts interrupts c closer opener rest n.command
  simp only [steering]
  cases here.command with
  | beginRepeat times infinite =>
    simp only [Script.bind_eq, Script.bind_assoc]
    rfl
  | beginInterval seconds =>
    simp only [Script.bind_eq, Script.bind_assoc]
    congr 1
    funext answer
    split <;> rfl
  | beginIf holds =>
    simp only [Script.bind_eq, Script.bind_assoc]
    congr 1
    funext met
    cases met with
    | true => rfl
    | false => exact congrArg Script.done hskip
  | otherwise => exact congrArg Script.done hskip
  | beginWhile holds | endIf => rfl
  | _ => exact hclose _

theorem run_turn_interrupts (h : c.Neat) (hcur : c.current = some id) (hn : c.nodes[id]? = some here)
    (act : α → Caller → Script κ ω (Except Failure Unit)) (self : Caller) (absolute : Seconds) :
    (turn act self absolute id).run { c with interrupts } =
      ((turn act self absolute id).run c).bind fun out => .done (out.1, { out.2 with interrupts }) := by
  have hn' : ({ c with interrupts } : Chain κ ω α).nodes[id]? = some here := hn
  by_cases hk : here.command.opcode.kind = .plain
  · obtain ⟨e, hc, hs⟩ := h.exists_errand hcur hn hk
    rw [run_turn_errand hn act self absolute hc hs, run_turn_errand hn' act self absolute hc hs,
      Script.bind_assoc]
    congr 1
    funext v
    cases v <;> rfl
  · rw [turn, run_bind, run_bind, run_dispatch_control hn act self absolute hk,
      run_dispatch_control hn' act self absolute hk, steering_interrupts interrupts, Script.bind_assoc,
      Script.bind_assoc]
    congr 1
    funext out
    obtain ⟨answer, d⟩ := out
    cases answer with
    | ok flow => exact run_settle_interrupts interrupts flow d
    | error f => rfl

end Interrupts

end ChainRun

end FrameChain
