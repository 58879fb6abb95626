import FrameChain.Proofs.Structured.Errand

set_option autoImplicit false

namespace FrameChain.ChainRun

variable {κ ω α τ : Type}

def settle (id : NodeId) : Flow → ChainRun κ ω α Bool
  | .advance => do
    leave id
    moveAfter id
    return true
  | .jump target => do
    modify fun c => { c with current := some target }
    return true
  | .jumpPast target => do
    leave id
    moveAfter target
    return true
  | .suspend => return false

/-- A round without the checks before its command. -/
def turn (act : α → Caller → Script κ ω (Except Failure Unit)) (self : Caller) (absolute : Seconds)
    (id : NodeId) : ChainRun κ ω α Bool := dispatch act self absolute id >>= settle id

section Round

variable (name : String) (attached : Bool) (scopes : List NodeId)
  (act : α → Caller → Script κ ω (Except Failure Unit)) (self : Caller) (absolute : Seconds)

theorem run_round {tokens : List (Token κ ω α)} {pos : Nat} (scratch : Scratch)
    (h : pos < tokens.length) :
    (round act self absolute).run (Chain.laid name attached tokens pos scopes scratch) =
      .look fun s =>
        if s.isDone self.component then
          .done (.ok false, Chain.laid name attached tokens pos scopes scratch)
        else (turn act self absolute pos).run
          (Chain.laid name attached tokens pos scopes scratch) := by
  have hc : (Chain.laid name attached tokens pos scopes scratch).current = some pos := if_pos h
  simp only [round, isDone, run_bind, run_script, Script.scene, Script.bind]
  congr 1
  funext s
  cases s.isDone self.component with
  | true => rfl
  | false =>
    have hi : (Chain.laid name attached tokens pos scopes scratch).interrupts = [] := rfl
    simp only [run_pure, Script.bind, Bool.false_eq_true, if_false, run_bind, run_chain, run_script,
      hi, anyHolds, Script.pure_eq, hc, turn]
    congr 1

theorem run_round_end (tokens : List (Token κ ω α)) :
    (round act self absolute).run (Chain.laid name attached tokens tokens.length [] {}) =
      .look fun s =>
        if s.isDone self.component then
          .done (.ok false, Chain.laid name attached tokens tokens.length [] {})
        else .ask .finish fun _ =>
          .done (.ok false, (Chain.laid name attached tokens tokens.length [] {}).stopped) := by
  simp only [round, isDone, run_bind, run_script, Script.scene, Script.bind]
  congr 1
  funext s
  cases s.isDone self.component with
  | true => rfl
  | false =>
    simp only [run_pure, Script.bind, Bool.false_eq_true, if_false, run_bind, run_chain, run_script,
      anyHolds, Script.pure_eq, Chain.laid, Nat.lt_irrefl]
    rfl

end Round

section Block

variable (name : String) (attached : Bool) (l m r : List (Token κ ω α)) (scopes : List NodeId)
  (act : α → Caller → Script κ ω (Except Failure Unit)) (self : Caller) (absolute : Seconds)

theorem run_node_closer (o k : Token κ ω α) (pos : Nat) (scratch : Scratch) :
    (node (l.length + (m.length + 1))).run
        (Chain.laid name attached (l ++ o :: (m ++ k :: r)) pos scopes scratch) =
      .done (.ok (k.node (l ++ o :: (m ++ k :: r)).length (l.length + (m.length + 1))),
        Chain.laid name attached (l ++ o :: (m ++ k :: r)) pos scopes scratch) := by
  rw [append_closer, ← length_opener l m o]
  exact run_node_mid ..

theorem run_leave_closer (o k : Token κ ω α) (hk : left k = k) (pos : Nat) (scratch : Scratch) :
    (leave (l.length + (m.length + 1))).run
        (Chain.laid name attached (l ++ o :: (m ++ k :: r)) pos scopes scratch) =
      .done (.ok (), Chain.laid name attached (l ++ o :: (m ++ k :: r)) pos scopes scratch) := by
  rw [append_closer, ← length_opener l m o, run_leave, hk]

theorem run_moveAfter_closer (o k : Token κ ω α) (pos : Nat) (scratch : Scratch) :
    (moveAfter (l.length + (m.length + 1))).run
        (Chain.laid name attached (l ++ o :: (m ++ k :: r)) pos scopes scratch) =
      .done (.ok (), Chain.laid name attached (l ++ o :: (m ++ k :: r))
        (l.length + (m.length + 1) + 1) scopes scratch) := by
  rw [append_closer, ← length_opener l m o, run_moveAfter]

theorem run_jump (t : Token κ ω α) (pos : Nat) (scratch : Scratch) :
    (settle pos (.jump l.length)).run (Chain.laid name attached (l ++ t :: r) pos scopes scratch) =
      .done (.ok true, Chain.laid name attached (l ++ t :: r) l.length scopes scratch) := by
  have h : l.length < (l ++ t :: r).length := by
    rw [List.length_append, List.length_cons]
    omega
  simp only [settle, run_bind, run_modify, Script.bind, run_pure, Chain.laid, h, if_true]

theorem run_settle_advance (t : Token κ ω α) (pos : Nat) (scratch : Scratch) :
    (settle l.length .advance).run (Chain.laid name attached (l ++ t :: r) pos scopes scratch) =
      .done (.ok true,
        Chain.laid name attached (l ++ left t :: r) (l.length + 1) scopes scratch) := by
  simp only [settle, run_bind, run_leave, run_moveAfter, Script.bind, run_pure]

theorem run_turn_beginRepeat (times : Lazy ω UInt32) (infinite : Bool) :
    (turn act self absolute l.length).run
        (Chain.laid name attached (l ++ ⟨.beginRepeat times infinite, none⟩ :: r) l.length scopes
          {}) =
      times.resolve.bind fun (n, resolved) => .done (.ok true, Chain.laid name attached
        (l ++ ⟨.beginRepeat resolved (if times.cached.isNone then n == 0 else infinite), none⟩ :: r)
        (l.length + 1) (l.length :: scopes) {}) := by
  simp only [turn, dispatch, openRepeat, run_bind, run_node_mid, Token.node_command, Script.bind, run_script,
    run_setCommand, run_openScope, run_pure, Script.bind_assoc, run_settle_advance]
  rfl

theorem run_turn_endRepeat (times : Lazy ω UInt32) (n : UInt32) (hn : times.cached = some n)
    (infinite : Bool) :
    (turn act self absolute (l.length + (m.length + 1))).run
        (Chain.laid name attached
          (l ++ ⟨.beginRepeat times infinite, none⟩ :: (m ++ ⟨.endRepeat, none⟩ :: r))
          (l.length + (m.length + 1)) (l.length :: scopes) {}) =
      .done (.ok true,
        if infinite then
          Chain.laid name attached
            (l ++ ⟨.beginRepeat times true, none⟩ :: (m ++ ⟨.endRepeat, none⟩ :: r))
            l.length scopes {}
        else if 1 < n then
          Chain.laid name attached
            (l ++ ⟨.beginRepeat { times with cached := some (n - 1) } false, none⟩ ::
              (m ++ ⟨.endRepeat, none⟩ :: r))
            l.length scopes {}
        else
          Chain.laid name attached
            (l ++ ⟨.beginRepeat times.reset false, none⟩ :: (m ++ ⟨.endRepeat, none⟩ :: r))
            (l.length + (m.length + 1) + 1) scopes {}) := by
  obtain ⟨param, cached⟩ := times
  cases hn
  simp only [turn, dispatch, closeRepeat, run_bind, run_node_closer, Token.node_command, Script.bind,
    run_closeScope, run_node_mid]
  cases infinite with
  | true =>
    simp only [run_pure, Script.bind, run_jump, if_true]
  | false =>
    simp only [Lazy.resolve, run_script, Script.pure_eq, Script.bind, Bool.false_eq_true, if_false,
      run_bind]
    by_cases h : 1 < n
    · simp only [if_pos h, run_bind, run_setCommand, run_pure, Script.bind, run_jump]
    · simp only [if_neg h, run_bind, run_setCommand, run_pure, Script.bind, settle]
      rw [run_leave_closer _ _ _ _ _ _ _ _ rfl]
      simp only [run_moveAfter_closer, Script.bind]

theorem run_turn_beginWhile (holds : HostFun ω Bool) :
    (turn act self absolute l.length).run
        (Chain.laid name attached (l ++ ⟨.beginWhile holds, none⟩ :: r) l.length scopes {}) =
      .done (.ok true, Chain.laid name attached (l ++ ⟨.beginWhile holds, none⟩ :: r) (l.length + 1)
        (l.length :: scopes) {}) := by
  simp only [turn, dispatch, run_bind, run_node_mid, Token.node_command, Script.bind, run_openScope,
    run_pure, run_settle_advance]
  rfl

theorem run_turn_endWhile (holds : HostFun ω Bool) :
    (turn act self absolute (l.length + (m.length + 1))).run
        (Chain.laid name attached (l ++ ⟨.beginWhile holds, none⟩ :: (m ++ ⟨.endWhile, none⟩ :: r))
          (l.length + (m.length + 1)) (l.length :: scopes) {}) =
      (Script.host holds).bind fun again => .done (.ok true,
        Chain.laid name attached (l ++ ⟨.beginWhile holds, none⟩ :: (m ++ ⟨.endWhile, none⟩ :: r))
          (if again then l.length else l.length + (m.length + 1) + 1) scopes {}) := by
  simp only [turn, dispatch, closeWhile, run_bind, run_node_closer, Token.node_command, Script.bind,
    run_closeScope, run_node_mid, run_script, Script.bind_assoc]
  congr 1
  funext again
  cases again with
  | true =>
    simp only [run_pure, Script.bind, run_jump, if_true]
  | false =>
    simp only [run_pure, Script.bind, Bool.false_eq_true, if_false, settle, run_bind]
    rw [run_leave_closer _ _ _ _ _ _ _ _ rfl]
    simp only [run_moveAfter_closer, Script.bind]

theorem run_turn_beginInterval (seconds : Lazy ω Seconds) (since : Option Seconds) :
    (turn act self absolute l.length).run
        (Chain.laid name attached (l ++ ⟨.beginInterval seconds, none⟩ :: r) l.length scopes
          { waitStart := since }) =
      seconds.resolve.bind fun (limit, resolved) => .done
        (if absolute - since.getD absolute ≥ limit then
          (.ok true, Chain.laid name attached (l ++ ⟨.beginInterval resolved.reset, none⟩ :: r)
            (l.length + 1) (l.length :: scopes) {})
        else
          (.ok false, Chain.laid name attached (l ++ ⟨.beginInterval resolved, none⟩ :: r) l.length
            scopes { waitStart := some (since.getD absolute) })) := by
  simp only [turn, dispatch, openInterval, run_bind, run_node_mid, Token.node_command, Script.bind, run_script,
    run_setCommand, Script.bind_assoc]
  congr 1
  funext answer
  have hw : (waitStart absolute).run (Chain.laid name attached
      (l ++ ⟨.beginInterval answer.2, none⟩ :: r) l.length scopes { waitStart := since }) =
      .done (.ok (since.getD absolute), Chain.laid name attached
        (l ++ ⟨.beginInterval answer.2, none⟩ :: r) l.length scopes
          { waitStart := some (since.getD absolute) }) := rfl
  simp only [hw, Script.bind]
  by_cases h : absolute - since.getD absolute ≥ answer.1
  · simp only [if_pos h, run_bind, run_modifyScratch_laid, Script.bind, run_openScope, run_pure,
      run_settle_advance]
    rfl
  · simp only [if_neg h, run_pure, Script.bind, settle]

theorem run_turn_endInterval (seconds : Lazy ω Seconds) :
    (turn act self absolute (l.length + (m.length + 1))).run
        (Chain.laid name attached
          (l ++ ⟨.beginInterval seconds, none⟩ :: (m ++ ⟨.endInterval, none⟩ :: r))
          (l.length + (m.length + 1)) (l.length :: scopes) {}) =
      .done (.ok true, Chain.laid name attached
        (l ++ ⟨.beginInterval seconds, none⟩ :: (m ++ ⟨.endInterval, none⟩ :: r))
        l.length scopes {}) := by
  simp only [turn, dispatch, closeInterval, run_bind, run_node_closer, Token.node_command, Script.bind,
    run_closeScope, run_node_mid, run_pure, run_jump]

theorem run_turn_beginIf (holds : HostFun ω Bool) (k : Token κ ω α) :
    (turn act self absolute l.length).run (Chain.laid name attached
        (l ++ ⟨.beginIf holds, some (m.length + 1)⟩ :: (m ++ k :: r)) l.length scopes {}) =
      (Script.host holds).bind fun yes => .done (.ok true, Chain.laid name attached
        (l ++ ⟨.beginIf holds, some (m.length + 1)⟩ :: (m ++ k :: r))
        (if yes then l.length + 1 else l.length + (m.length + 1) + 1) scopes {}) := by
  simp only [turn, dispatch, run_bind, run_node_mid, Token.node_command, Script.bind, run_script,
    Script.bind_assoc]
  congr 1
  funext yes
  cases yes with
  | true =>
    simp only [run_pure, Script.bind, if_true, run_settle_advance]
    rfl
  | false =>
    simp only [Bool.false_eq_true, if_false, jumpPast, Token.node_jump, Option.map_some, run_pure, Script.bind,
      settle, run_bind, run_leave]
    simp only [left, Command.opcode, reduceCtorEq, if_false, Command.reset, run_moveAfter_closer,
      Script.bind]

theorem run_turn_otherwise (k : Token κ ω α) :
    (turn act self absolute l.length).run (Chain.laid name attached
        (l ++ ⟨.otherwise, some (m.length + 1)⟩ :: (m ++ k :: r)) l.length scopes {}) =
      .done (.ok true, Chain.laid name attached
        (l ++ ⟨.otherwise, some (m.length + 1)⟩ :: (m ++ k :: r)) (l.length + (m.length + 1) + 1)
        scopes {}) := by
  simp only [turn, dispatch, jumpPast, run_bind, run_node_mid, Token.node_command, Script.bind,
    Token.node_jump, Option.map_some, run_pure, settle, run_leave]
  simp only [left, Command.opcode, reduceCtorEq, if_false, Command.reset, run_moveAfter_closer,
    Script.bind]

theorem run_turn_endIf :
    (turn act self absolute l.length).run
        (Chain.laid name attached (l ++ ⟨.endIf, none⟩ :: r) l.length scopes {}) =
      .done (.ok true,
        Chain.laid name attached (l ++ ⟨.endIf, none⟩ :: r) (l.length + 1) scopes {}) := by
  simp only [turn, dispatch, run_bind, run_node_mid, Token.node_command, Script.bind, run_pure,
    run_settle_advance]
  rfl

end Block

end FrameChain.ChainRun
