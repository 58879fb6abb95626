import FrameChain.Proofs.Chain.Samples

set_option autoImplicit false

namespace FrameChain

open Chain ChainRun

variable {κ ω α τ : Type}

structure Command.Steady (command : Command κ ω α) : Prop where
  reset : command.reset = command
  params : ∀ part, command.param? part = none

theorem Command.steady_of_closer {command : Command κ ω α} (h : command.opcode.kind = .closer) :
    command.Steady := by
  cases command with
  | endRepeat | endWhile | endInterval => exact ⟨rfl, fun _ => rfl⟩
  | _ => cases h

theorem Command.steady_of_branch {command : Command κ ω α} (h : command.opcode.kind = .branch) :
    command.Steady := by
  cases command with
  | beginIf | otherwise | endIf => exact ⟨rfl, fun _ => rfl⟩
  | _ => cases h

/-- What a turn on this command makes of the chain, with the log of the parameters and the answer. -/
inductive Turned (c : Chain κ ω α) (id : NodeId) (here : Node κ ω α) :
    List Sample → Except Failure Bool → Chain κ ω α → Prop
  | visited {e : Errand κ ω α} {v : Visit κ ω α} {log : List Sample} (hc : e.command = here.command)
      (hs : e.scratch = c.scratch) (h : e.Visited id log v.errand) :
      Turned c id here log (v.turned c id).1 (v.turned c id).2
  | repeats {times : Lazy ω UInt32} {infinite endless : Bool} {n : UInt32}
      (hc : here.command = .beginRepeat times infinite) (hg : times.Gives n) :
      Turned c id here (times.entry .count ⟨id, .main⟩ n) (.ok true)
        { placed c id (.beginRepeat (times.keeping n) endless) c.scratch with
          scopes := c.scopes.push id
          current := here.next }
  | pauses {seconds : Lazy ω Seconds} {limit : Seconds} {scratch : Scratch}
      (hc : here.command = .beginInterval seconds) (hg : seconds.Gives limit) :
      Turned c id here (seconds.entry .seconds ⟨id, .main⟩ limit) (.ok false)
        (placed c id (.beginInterval (seconds.keeping limit)) scratch)
  | enters {seconds : Lazy ω Seconds} {limit : Seconds} {scratch : Scratch}
      (hc : here.command = .beginInterval seconds) (hg : seconds.Gives limit) :
      Turned c id here (seconds.entry .seconds ⟨id, .main⟩ limit) (.ok true)
        { placed c id (.beginInterval seconds.reset) scratch with
          scopes := c.scopes.push id
          current := here.next }
  | again {opener : NodeId} {rest : List NodeId} {opening : Node κ ω α} {times : Lazy ω UInt32}
      {n : UInt32} (hc : here.command = .endRepeat) (hs : c.scopes.entries = opener :: rest)
      (ho : c.nodes[opener]? = some opening) (hr : opening.command = .beginRepeat times false)
      (hg : times.Gives n) (hn : 1 < n) :
      Turned c id here (times.entry .count ⟨opener, .main⟩ n) (.ok true)
        { placed (popped c rest) opener (.beginRepeat (times.keeping (n - 1)) false) c.scratch with
          current := some opener }
  | through {opener : NodeId} {rest : List NodeId} {opening : Node κ ω α} {times : Lazy ω UInt32}
      {n : UInt32} (hc : here.command = .endRepeat) (hs : c.scopes.entries = opener :: rest)
      (ho : c.nodes[opener]? = some opening) (hr : opening.command = .beginRepeat times false)
      (hg : times.Gives n) :
      Turned c id here (times.entry .count ⟨opener, .main⟩ n) (.ok true)
        { placed (popped c rest) opener (.beginRepeat times.reset false) c.scratch with
          current := here.next }
  /-- Nothing but the cursor and the stack. A repetition stays on the stack, unless the cursor goes back to
  it or its end fails, and its end goes nowhere else. -/
  | steers {answer : Except Failure Bool} {scopes : Scopes} {current : Option NodeId}
      (hp : ∀ part, here.command.param? part = none) (hc : answer = .ok true ∨ current = c.current)
      (hb : here.command.opcode = .endRepeat → answer = .ok true →
        ∃ opener rest, c.scopes.entries = opener :: rest ∧ current = some opener)
      (hs : ∀ i ∈ c.scopes.entries, c.opcode? i = some .beginRepeat →
        i ∈ scopes.entries ∨ current = some i ∨
          here.command.opcode.kind = .closer ∧ ∃ f, answer = .error f ∧ f.isScope = true) :
      Turned c id here [] answer { c with scopes, current }

/-- A turn leaves all other commands alone, except that the end of a repetition counts. -/
theorem Turned.elsewhere {c d : Chain κ ω α} {id i : NodeId} {here : Node κ ω α} {log : List Sample}
    {answer : Except Failure Bool} (h : Turned c id here log answer d) (hi : i ≠ id)
    (hr : c.opcode? i ≠ some .beginRepeat) : d.command? i = c.command? i := by
  have hplaced (j : NodeId) (hj : i ≠ j) (command : Command κ ω α) :
      (placed c j command {}).command? i = c.command? i := by
    rw [command?_placed, if_neg (Ne.symm hj)]
  have hopener {opener : NodeId} {opening : Node κ ω α} {times : Lazy ω UInt32}
      (ho : c.nodes[opener]? = some opening) (hc : opening.command = .beginRepeat times false) :
      i ≠ opener := by
    rintro rfl
    exact hr (by rw [opcode?, ho, Option.map_some, hc]; rfl)
  cases h with
  | @visited e v => exact v.command?_turned_ne hi
  | repeats | pauses | enters => exact hplaced id hi _
  | again _ _ ho hc | through _ _ ho hc => exact hplaced _ (hopener ho hc) _
  | steers => rfl

theorem Turned.stays {c d : Chain κ ω α} {id : NodeId} {here : Node κ ω α} {log : List Sample}
    {answer : Except Failure Bool} (h : Turned c id here log answer d) (ha : answer ≠ .ok true) :
    d.current = c.current := by
  cases h with
  | @visited e v =>
    cases v with
    | finished e' => exact absurd rfl ha
    | waiting e' | failed f e' => rfl
  | pauses => rfl
  | repeats | enters | again | through => exact absurd rfl ha
  | steers _ hc => exact hc.resolve_left ha

namespace ChainRun

section Accounts

variable {act : α → Caller → Script κ ω (Except Failure Unit)} {self : Caller} {base c : Chain κ ω α}
  {id : NodeId} {here : Node κ ω α} {log : List Sample}
  {R : List Sample → Except Failure Bool × Chain κ ω α → Prop}

theorem run_settle_leave {target : NodeId} {there : Node κ ω α}
    (ht : (c.left id).nodes[target]? = some there) :
    (do
      leave id
      moveAfter target
      return true : ChainRun κ ω α Bool).run c =
      .done (.ok true, { c.left id with current := there.next }) := by
  rw [run_bind]
  change ((do
    moveAfter target
    return true : ChainRun κ ω α Bool).run (c.left id)) = _
  simp only [moveAfter, run_bind, run_node_of ht, Script.bind, run_modify]
  rfl

theorem left_of_steady (hn : c.nodes[id]? = some here)
    (h : here.command.opcode = .beginRepeat ∨ here.command.reset = here.command) : c.left id = c := by
  refine modifyNode_same hn ?_
  split
  · rfl
  · rw [h.resolve_left ‹_›]

theorem accounts_advance (hn : c.nodes[id]? = some here)
    (h : R log (.ok true, { c.left id with current := here.next })) :
    ((settle id .advance).run c).Accounts act self base R log := by
  have hleft : (c.left id).nodes[id]? = some (if here.command.opcode = .beginRepeat then here
      else { here with command := here.command.reset }) := getElem?_modifyNode hn _
  have hrun := run_settle_leave hleft
  rw [apply_ite Node.next, ite_self] at hrun
  change Script.Accounts act self base R log ((do
    leave id
    moveAfter id
    return true : ChainRun κ ω α Bool).run c)
  rw [hrun]
  exact .done h

theorem accounts_past {target : NodeId} (hsame : c.left id = c)
    (hd : c.nodes[target]? = none → base.Dangles target) (h : ∀ current, R log (.ok true, { c with current })) :
    ((settle id (.jumpPast target)).run c).Accounts act self base R log := by
  change Script.Accounts act self base R log ((do
    leave id
    moveAfter target
    return true : ChainRun κ ω α Bool).run c)
  cases ht : c.nodes[target]? with
  | some there =>
    rw [run_settle_leave (hsame.symm ▸ ht), hsame]
    exact .done (h _)
  | none =>
    have hcrash : (do
        leave id
        moveAfter target
        return true : ChainRun κ ω α Bool).run c = .crash (.dangling target) := by
      have hnone : (c.left id).nodes[target]? = none := hsame.symm ▸ ht
      rw [run_bind]
      change ((do
        moveAfter target
        return true : ChainRun κ ω α Bool).run (c.left id)) = _
      simp only [moveAfter, node, run_bind, run_chain, Script.bind, hnone, run_script]
    rw [hcrash]
    exact .dangling (hd ht)

abbrev AccountsTurn (act : α → Caller → Script κ ω (Except Failure Unit)) (self : Caller)
    (c : Chain κ ω α) (id : NodeId) (here : Node κ ω α)
    (p : Script κ ω (Except Failure Bool × Chain κ ω α)) : Prop :=
  p.Accounts act self c (fun log out => Turned c id here log out.1 out.2) []

variable {absolute : Seconds}

theorem accounts_errand (hn : c.nodes[id]? = some here) {e : Errand κ ω α}
    (hc : e.command = here.command) (hs : e.scratch = c.scratch) :
    AccountsTurn act self c id here ((turn act self absolute id).run c) := by
  rw [run_turn_errand hn act self absolute hc hs]
  refine (e.accounts_visit act self absolute c.name ?_).bind fun log v hv => .done (.visited hc hs hv)
  rw [command?_of_node hn, hc]

def settled (id : NodeId) :
    Except Failure Flow × Chain κ ω α → Script κ ω (Except Failure Bool × Chain κ ω α)
  | (.ok flow, d) => (settle id flow).run d
  | (.error f, d) => .done (.error f, d)

theorem run_turn (act : α → Caller → Script κ ω (Except Failure Unit)) (self : Caller)
    (absolute : Seconds) (id : NodeId) (c : Chain κ ω α) :
    (turn act self absolute id).run c = ((dispatch act self absolute id).run c).bind (settled id) := by
  rw [turn, run_bind]
  congr 1
  refine funext ?_
  rintro ⟨answer, d⟩
  cases answer <;> rfl

abbrev Settles (act : α → Caller → Script κ ω (Except Failure Unit)) (self : Caller)
    (c : Chain κ ω α) (id : NodeId) (here : Node κ ω α) (log : List Sample)
    (out : Except Failure Flow × Chain κ ω α) : Prop :=
  (settled id out).Accounts act self c (fun log out => Turned c id here log out.1 out.2) log

theorem steers_same (hs : here.command.Steady) {answer : Except Failure Bool}
    {current : Option NodeId} (hc : answer = .ok true ∨ current = c.current)
    (he : here.command.opcode = .endRepeat → answer ≠ .ok true) :
    Turned c id here [] answer { c with current } :=
  .steers hs.params hc (fun hend ha => absurd ha (he hend)) fun _ hi _ => .inl hi

theorem settles_advance_same (hn : c.nodes[id]? = some here) (hk : here.command.opcode.kind = .branch) :
    Settles act self c id here [] (.ok .advance, c) := by
  have hs := Command.steady_of_branch hk
  refine accounts_advance hn ?_
  rw [left_of_steady hn (.inr hs.reset)]
  refine steers_same hs (.inl rfl) fun he => ?_
  rw [he] at hk
  cases hk

theorem settles_skipping (hcur : c.current = some id) (hn : c.nodes[id]? = some here)
    (hk : here.command.opcode.kind = .branch) :
    Settles act self c id here [] (skipping c here) := by
  have hs := Command.steady_of_branch hk
  cases hj : here.jump with
  | none =>
    simp only [skipping, hj]
    exact .done (steers_same hs (.inr rfl) fun _ => by rintro ⟨⟩)
  | some target =>
    simp only [skipping, hj]
    refine accounts_past (left_of_steady hn (.inr hs.reset)) (fun ht => ⟨.inr (.inr ?_), ht⟩)
      fun _ => steers_same hs (.inl rfl) fun he => ?_
    · rw [hcur, Option.bind_some, jump?, hn, Option.bind_some, hj]
    · rw [he] at hk
      cases hk

theorem settles_opened (hn : c.nodes[id]? = some here) {holds : HostFun ω Bool}
    (hc : here.command = .beginWhile holds) :
    Settles act self c id here [] (.ok .advance, { c with scopes := c.scopes.push id }) := by
  refine accounts_advance (c := { c with scopes := c.scopes.push id }) hn ?_
  rw [left_of_steady (c := { c with scopes := c.scopes.push id }) hn (.inr (by rw [hc]; rfl))]
  refine .steers (fun part => ?_) (.inl rfl) (fun he => ?_) fun i hi _ => .inl (List.mem_cons_of_mem _ hi)
  · rw [hc]
    cases part <;> rfl
  · rw [hc] at he
    cases he

section Closing

variable {opener : NodeId} {rest : List NodeId} {opening : Node κ ω α}

theorem steers_popped (hk : here.command.opcode.kind = .closer)
    (hs : c.scopes.entries = opener :: rest) {answer : Except Failure Bool} {current : Option NodeId}
    (hc : answer = .ok true ∨ current = c.current)
    (hb : here.command.opcode = .endRepeat → answer = .ok true → current = some opener)
    (h : c.opcode? opener = some .beginRepeat →
      current = some opener ∨ ∃ f, answer = .error f ∧ f.isScope = true) :
    Turned c id here [] answer { popped c rest with current } := by
  refine .steers (Command.steady_of_closer hk).params hc (fun he ha => ⟨opener, rest, hs, hb he ha⟩)
    fun i hi hrepeat => ?_
  rw [hs] at hi
  rcases List.mem_cons.mp hi with rfl | hi
  · exact .inr ((h hrepeat).imp_right fun hf => ⟨hk, hf⟩)
  · exact .inl hi

theorem settles_mismatch (hk : here.command.opcode.kind = .closer)
    (hs : c.scopes.entries = opener :: rest) (name : String) (code closer : Opcode) :
    Settles act self c id here [] (.error (.scopeMismatch name code closer), popped c rest) :=
  .done (steers_popped hk hs (.inr rfl) (fun _ => by rintro ⟨⟩) fun _ => .inr ⟨_, rfl, rfl⟩)

theorem settles_jump (hk : here.command.opcode.kind = .closer)
    (hs : c.scopes.entries = opener :: rest) :
    Settles act self c id here [] (.ok (.jump opener), popped c rest) :=
  .done (steers_popped hk hs (.inl rfl) (fun _ _ => rfl) fun _ => .inl rfl)

theorem settles_advance_popped (hn : c.nodes[id]? = some here)
    (hcode : here.command.opcode = .endWhile) (hs : c.scopes.entries = opener :: rest)
    (hne : c.opcode? opener ≠ some .beginRepeat) :
    Settles act self c id here [] (.ok .advance, popped c rest) := by
  have hk : here.command.opcode.kind = .closer := by rw [hcode]; rfl
  refine accounts_advance (c := popped c rest) hn ?_
  rw [left_of_steady (c := popped c rest) hn (.inr (Command.steady_of_closer hk).reset)]
  refine steers_popped hk hs (.inl rfl) (fun he => ?_) fun h => absurd h hne
  rw [hcode] at he
  cases he

variable (act self) in
theorem settles_endRepeat (hn : c.nodes[id]? = some here) (hc : here.command = .endRepeat)
    (hs : c.scopes.entries = opener :: rest) (ho : c.nodes[opener]? = some opening)
    {times : Lazy ω UInt32} (hr : opening.command = .beginRepeat times false) {n : UInt32}
    (hg : times.Gives n) :
    Settles act self c id here (times.entry .count ⟨opener, .main⟩ n)
      (if 1 < n then (.ok (.jump opener), placed (popped c rest) opener
          (.beginRepeat (times.keeping (n - 1)) false) c.scratch)
        else (.ok .advance, placed (popped c rest) opener (.beginRepeat times.reset false) c.scratch)) := by
  by_cases h : 1 < n
  · rw [if_pos h]
    exact .done (.again hc hs ho hr hg h)
  · rw [if_neg h]
    have hne : id ≠ opener := by
      rintro rfl
      cases hn.symm.trans ho
      cases hc.symm.trans hr
    have hhere : (placed (popped c rest) opener (.beginRepeat times.reset false) c.scratch).nodes[id]? =
        some here := by
      rw [placed, modifyNode, Array.getElem?_modify, if_neg (Ne.symm hne)]
      exact hn
    refine accounts_advance hhere ?_
    rw [left_of_steady hhere (.inr (by rw [hc]; rfl))]
    exact .through hc hs ho hr hg

end Closing

theorem accounts_closing {closer : Opcode} (hn : c.nodes[id]? = some here)
    (hcloser : here.command.opcode = closer) (hk : closer.kind = .closer) {opener : NodeId}
    {rest : List NodeId} {opening : Node κ ω α} (hs : c.scopes.entries = opener :: rest)
    (ho : c.nodes[opener]? = some opening) :
    (closing c closer opener rest opening.command).Accounts act self c (Settles act self c id here)
      [] := by
  subst hcloser
  have hcode : c.opcode? opener = some opening.command.opcode := by rw [opcode?, ho, Option.map_some]
  cases hcmd : opening.command with
  | beginRepeat times infinite =>
    by_cases he : here.command.opcode = .endRepeat
    · have hend : here.command = .endRepeat := by
        cases hc : here.command with
        | endRepeat => rfl
        | _ =>
          rw [hc] at he
          cases he
      rw [closing, if_pos he]
      cases infinite with
      | true => exact .done (settles_jump hk hs)
      | false =>
        refine Script.Accounts.resolve .count ⟨opener, .main⟩
          (by rw [param?, command?_of_node ho, hcmd]; rfl) fun n hg => ?_
        have hsettles := settles_endRepeat act self hn hend hs ho hcmd hg
        by_cases h : 1 < n
        · simp only [if_pos h] at hsettles ⊢
          exact .done hsettles
        · simp only [if_neg h] at hsettles ⊢
          exact .done hsettles
    · rw [closing, if_neg he]
      exact .done (settles_mismatch hk hs _ _ _)
  | beginWhile holds =>
    by_cases he : here.command.opcode = .endWhile
    · rw [closing, if_pos he]
      have hne : c.opcode? opener ≠ some .beginRepeat := by
        rw [hcode, hcmd]
        rintro ⟨⟩
      refine Script.Accounts.host (command?_of_node ho) (by rw [hcmd]; rfl) fun answer => ?_
      cases answer with
      | true => exact .done (settles_jump hk hs)
      | false => exact .done (settles_advance_popped hn he hs hne)
    · rw [closing, if_neg he]
      exact .done (settles_mismatch hk hs _ _ _)
  | beginInterval seconds =>
    by_cases he : here.command.opcode = .endInterval
    · rw [closing, if_pos he]
      exact .done (settles_jump hk hs)
    · rw [closing, if_neg he]
      exact .done (settles_mismatch hk hs _ _ _)
  | _ => exact .done (settles_mismatch hk hs _ _ _)

variable (act self) in
theorem accounts_closer (hn : c.nodes[id]? = some here) (hk : here.command.opcode.kind = .closer) :
    (match c.scopes.entries with
      | [] => .done (.error (.emptyScope c.name here.command.opcode), c)
      | opener :: rest =>
        match c.nodes[opener]? with
        | none => .crash (.dangling opener)
        | some n => closing c here.command.opcode opener rest n.command :
      Script κ ω (Except Failure Flow × Chain κ ω α)).Accounts act self c (Settles act self c id here)
        [] := by
  cases hs : c.scopes.entries with
  | nil => exact .done (.done (steers_same (Command.steady_of_closer hk) (.inr rfl) fun _ => by rintro ⟨⟩))
  | cons opener rest =>
    simp only
    cases ho : c.nodes[opener]? with
    | none => exact .dangling ⟨.inr (.inl (hs ▸ List.mem_cons_self)), ho⟩
    | some opening => exact accounts_closing hn rfl hk hs ho

theorem accounts_steering (hcur : c.current = some id) (hn : c.nodes[id]? = some here)
    (hk : here.command.opcode.kind ≠ .plain) :
    (steering c absolute id here).Accounts act self c (Settles act self c id here) [] := by
  have hid : c.command? id = some here.command := command?_of_node hn
  have hclose := accounts_closer act self hn
  rw [steering]
  cases hc : here.command with
  | beginRepeat times infinite =>
    refine Script.Accounts.resolve .count ⟨id, .main⟩
      (by rw [param?, hid, hc]; rfl) fun n hg => .done ?_
    let entered := placed c id (.beginRepeat (times.keeping n)
      (if times.cached.isNone then n == 0 else infinite)) c.scratch
    have hhere : entered.nodes[id]? = some _ := getElem?_placed hn _ _
    refine accounts_advance (c := { entered with scopes := c.scopes.push id }) hhere ?_
    rw [left_of_steady (c := { entered with scopes := c.scopes.push id }) hhere (.inl rfl)]
    exact .repeats hc hg
  | beginWhile holds =>
    exact .done (settles_opened hn hc)
  | beginInterval seconds =>
    refine Script.Accounts.resolve .seconds ⟨id, .main⟩
      (by rw [param?, hid, hc]; rfl) fun limit hg => ?_
    simp only
    split
    · refine .done ?_
      let entered := placed c id (.beginInterval (seconds.keeping limit))
        { c.scratch with waitStart := none }
      have hhere : entered.nodes[id]? = some _ := getElem?_placed hn _ _
      refine accounts_advance (c := { entered with scopes := c.scopes.push id }) hhere ?_
      have hleft : Chain.left { entered with scopes := c.scopes.push id } id =
          { placed c id (.beginInterval seconds.reset) { c.scratch with waitStart := none } with
            scopes := c.scopes.push id } := by
        refine (modifyNode_congr (c := { entered with scopes := c.scopes.push id }) hhere
          (g := fun node => { node with command := .beginInterval seconds.reset }) rfl).trans ?_
        exact congrArg (fun d : Chain κ ω α => { d with scopes := c.scopes.push id })
          (placed_placed c id _ _ _ { c.scratch with waitStart := none })
      rw [hleft]
      exact .enters hc hg
    · exact .done (.done (.pauses hc hg))
  | beginIf holds =>
    refine Script.Accounts.host hid (by rw [hc]; rfl) fun answer => ?_
    cases answer with
    | true => exact .done (settles_advance_same hn (by rw [hc]; rfl))
    | false => exact .done (settles_skipping hcur hn (by rw [hc]; rfl))
  | otherwise =>
    exact .done (settles_skipping hcur hn (by rw [hc]; rfl))
  | endIf =>
    exact .done (settles_advance_same hn (by rw [hc]; rfl))
  | endRepeat | endWhile | endInterval =>
    rw [hc] at hclose
    exact hclose rfl
  | _ => exact absurd (by rw [hc]; rfl) hk

/-- A turn asks for the parameters of its command that are not kept, and at the end of a repetition for
that of the opener. -/
theorem accounts_turn (hneat : c.Neat) (hcur : c.current = some id) (hn : c.nodes[id]? = some here) :
    AccountsTurn act self c id here ((turn act self absolute id).run c) := by
  by_cases hk : here.command.opcode.kind = .plain
  · obtain ⟨e, hc, hs⟩ := hneat.exists_errand hcur hn hk
    exact accounts_errand hn hc hs
  · rw [run_turn, run_dispatch_control hn act self absolute hk]
    exact (accounts_steering hcur hn hk).bind fun _ _ h => h

/-- What a round makes of the chain, with the log of the parameters and the answer: the turn of a command,
or nothing but perhaps the end of the chain. -/
inductive Rounded (c : Chain κ ω α) : List Sample → Except Failure Bool → Chain κ ω α → Prop
  | rests {answer : Except Failure Bool} {d : Chain κ ω α} (ha : answer ≠ .ok true)
      (hd : d = c ∨ d = { c.released with finished := true }) : Rounded c [] answer d
  | turned {id : NodeId} {here : Node κ ω α} {log : List Sample} {answer : Except Failure Bool}
      {d : Chain κ ω α} (hcur : c.current = some id) (hn : c.nodes[id]? = some here)
      (h : Turned c id here log answer d) : Rounded c log answer d

abbrev AccountsRound (act : α → Caller → Script κ ω (Except Failure Unit)) (self : Caller)
    (c : Chain κ ω α) (p : Script κ ω (Except Failure Bool × Chain κ ω α)) : Prop :=
  p.Accounts act self c (fun log out => Rounded c log out.1 out.2) []

theorem accounts_complete :
    AccountsRound act self c ((do
      complete
      return false : ChainRun κ ω α Bool).run c) := by
  have hend : (Rounded c [] (.ok false) { c.released with finished := true }) :=
    .rests (by rintro ⟨⟩) (.inr rfl)
  cases hk : c.scratch.messageKey with
  | none =>
    have hrun : (do
        complete
        return false : ChainRun κ ω α Bool).run c =
        (Script.request .finish).bind fun _ => .done (.ok false, { c.released with finished := true }) := by
      simp only [complete, release, scratch, run_bind, run_chain, run_pure, Script.bind, hk, run_modify,
        run_script]
      rfl
    rw [hrun]
    exact Script.Accounts.request fun _ => .done hend
  | some key =>
    have hrun : (do
        complete
        return false : ChainRun κ ω α Bool).run c =
        (Script.request (.unsubscribe key)).bind fun _ => (Script.request .finish).bind fun _ =>
          .done (.ok false, { c.released with finished := true }) := by
      simp only [complete, release, scratch, run_bind, run_chain, run_pure, Script.bind, hk, run_modify,
        run_script]
      rfl
    rw [hrun]
    exact Script.Accounts.request fun _ => Script.Accounts.request fun _ => .done hend

theorem accounts_anyHolds {R : List Sample → τ → Prop} {interrupts : List (HostFun ω Bool)}
    (hi : ∀ f ∈ interrupts, f ∈ c.interrupts) {next : Bool → Script κ ω τ}
    (h : ∀ holds, (next holds).Accounts act self c R []) :
    ((anyHolds interrupts).bind next).Accounts act self c R [] := by
  induction interrupts with
  | nil => exact h false
  | cons f rest ih =>
    rw [anyHolds, Script.bind_eq, Script.bind_assoc]
    refine .interrupt (hi f List.mem_cons_self) fun holds => ?_
    cases holds with
    | true => exact h true
    | false => exact ih fun g hg => hi g (List.mem_cons_of_mem _ hg)

theorem accounts_round (hneat : c.Neat) :
    AccountsRound act self c ((round act self absolute).run c) := by
  simp only [round, isDone, run_bind, run_script, Script.scene, Script.bind]
  refine .look fun s => ?_
  cases s.isDone self.component with
  | true => exact .done (.rests (by rintro ⟨⟩) (.inl rfl))
  | false =>
    simp only [run_pure, Script.bind, Bool.false_eq_true, if_false, run_bind, run_chain, run_script,
      Script.bind_assoc]
    refine accounts_anyHolds (fun f hf => hf) fun holds => ?_
    cases holds with
    | true => exact accounts_complete
    | false =>
      simp only [Script.bind, Bool.false_eq_true, if_false, run_bind, run_chain]
      cases hcur : c.current with
      | none =>
        cases c.scopes.isEmpty with
        | true => exact accounts_complete
        | false => exact .done (.rests (by rintro ⟨⟩) (.inl rfl))
      | some id =>
        change AccountsRound act self c ((turn act self absolute id).run c)
        cases hn : c.nodes[id]? with
        | some here => exact (accounts_turn hneat hcur hn).imp fun _ _ h => .turned hcur hn h
        | none =>
          rw [run_turn_dangling hn]
          exact .dangling ⟨.inl hcur, hn⟩

end Accounts

end ChainRun

end FrameChain
