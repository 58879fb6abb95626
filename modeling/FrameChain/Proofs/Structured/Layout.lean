import FrameChain.Chain.Build
import FrameChain.Chain.Run

set_option autoImplicit false

/-! A chain that was built by appending is given by the list of its commands and the jumps between them.
Jumps are counted from the command that jumps, so that a part of a chain reads the same wherever it
stands. -/
namespace FrameChain

variable {κ ω α τ υ : Type}

structure Token (κ ω α : Type) where
  command : Command κ ω α
  skip : Option Nat := none

def Token.node (t : Token κ ω α) (n i : Nat) : Node κ ω α where
  command := t.command
  next := if i + 1 < n then some (i + 1) else none
  previous := if i = 0 then none else some (i - 1)
  jump := t.skip.map (i + ·)

@[simp] theorem Token.node_command (t : Token κ ω α) (n i : Nat) :
    (t.node n i).command = t.command := rfl

@[simp] theorem Token.node_jump (t : Token κ ω α) (n i : Nat) :
    (t.node n i).jump = t.skip.map (i + ·) := rfl

def arena (tokens : List (Token κ ω α)) : Array (Node κ ω α) :=
  (tokens.mapIdx fun i t => t.node tokens.length i).toArray

theorem getElem?_arena (tokens : List (Token κ ω α)) (i : Nat) :
    (arena tokens)[i]? = tokens[i]?.map fun t => t.node tokens.length i := by
  simp [arena]

theorem getElem?_mid {β : Type} (l r : List β) (b : β) : (l ++ b :: r)[l.length]? = some b := by
  simp

theorem append_closer {β : Type} (l m r : List β) (o k : β) :
    l ++ o :: (m ++ k :: r) = (l ++ o :: m) ++ k :: r := by
  rw [List.append_assoc, List.cons_append]

theorem length_opener {β : Type} (l m : List β) (o : β) :
    (l ++ o :: m).length = l.length + (m.length + 1) := by
  rw [List.length_append, List.length_cons]

theorem size_arena (tokens : List (Token κ ω α)) : (arena tokens).size = tokens.length := by
  simp [arena]

theorem arena_modify (l r : List (Token κ ω α)) {t t' : Token κ ω α} {f : Node κ ω α → Node κ ω α}
    (hf : ∀ n, f (t.node n l.length) = t'.node n l.length) :
    (arena (l ++ t :: r)).modify l.length f = arena (l ++ t' :: r) := by
  have hlen : (l ++ t' :: r).length = (l ++ t :: r).length := by
    simp only [List.length_append, List.length_cons]
  refine Array.ext_getElem? fun i => ?_
  rw [Array.getElem?_modify, getElem?_arena, getElem?_arena, hlen]
  by_cases hi : l.length = i
  · subst hi
    rw [if_pos rfl, getElem?_mid, getElem?_mid, Option.map_some, Option.map_some, Option.map_some, hf]
  · rw [if_neg hi]
    congr 1
    rcases Nat.lt_or_gt_of_ne hi with hlt | hgt
    · have hle := Nat.le_of_lt hlt
      rw [List.getElem?_append_right hle, List.getElem?_append_right hle]
      obtain ⟨k, hk⟩ : ∃ k, i - l.length = k + 1 := ⟨i - l.length - 1, by omega⟩
      rw [hk, List.getElem?_cons_succ, List.getElem?_cons_succ]
    · rw [List.getElem?_append_left hgt, List.getElem?_append_left hgt]

namespace Chain

/-- A running chain with the cursor at `pos`, which may be behind its last command. -/
def laid (name : String) (attached : Bool) (tokens : List (Token κ ω α)) (pos : Nat)
    (scopes : List NodeId) (scratch : Scratch) : Chain κ ω α where
  name
  nodes := arena tokens
  head := if 0 < tokens.length then some 0 else none
  tail := if 0 < tokens.length then some (tokens.length - 1) else none
  current := if pos < tokens.length then some pos else none
  started := true
  attached
  jumpsStale := false
  scopes := ⟨scopes⟩
  scratch

def stopped (c : Chain κ ω α) : Chain κ ω α :=
  { c with current := none, scopes := {}, scratch := {}, finished := true }

theorem lt_of_current {name : String} {attached : Bool} {tokens : List (Token κ ω α)} {p pos : Nat}
    {scopes : List NodeId} {scratch : Scratch}
    (h : (laid name attached tokens p scopes scratch).current = some pos) : p < tokens.length := by
  simp only [laid] at h
  split at h
  · assumption
  · cases h

theorem le_of_current {name : String} {attached : Bool} {tokens : List (Token κ ω α)} {p : Nat}
    {scopes : List NodeId} {scratch : Scratch}
    (h : (laid name attached tokens p scopes scratch).current = none) : tokens.length ≤ p := by
  simp only [laid] at h
  split at h
  · cases h
  · omega

theorem eq_of_current {name : String} {attached : Bool} {tokens : List (Token κ ω α)} {p pos : Nat}
    {scopes : List NodeId} {scratch : Scratch}
    (h : (laid name attached tokens p scopes scratch).current = some pos) : pos = p := by
  simp only [laid] at h
  split at h
  · exact (Option.some.inj h).symm
  · cases h

theorem modifyNode_congr {c : Chain κ ω α} {id : NodeId} {n : Node κ ω α} (hn : c.nodes[id]? = some n)
    {f g : Node κ ω α → Node κ ω α} (h : f n = g n) : c.modifyNode id f = c.modifyNode id g := by
  have hnodes : c.nodes.modify id f = c.nodes.modify id g := by
    refine Array.ext_getElem? fun i => ?_
    rw [Array.getElem?_modify, Array.getElem?_modify]
    split
    · rename_i hi
      rw [← hi, hn, Option.map_some, Option.map_some, h]
    · rfl
  rw [modifyNode, modifyNode, hnodes]

theorem modifyNode_same {c : Chain κ ω α} {id : NodeId} {n : Node κ ω α} (hn : c.nodes[id]? = some n)
    {f : Node κ ω α → Node κ ω α} (hf : f n = n) : c.modifyNode id f = c := by
  rw [modifyNode_congr (g := fun n => n) hn hf]
  have hnodes : c.nodes.modify id (fun n => n) = c.nodes := by
    refine Array.ext_getElem? fun i => ?_
    rw [Array.getElem?_modify]
    split <;> simp
  exact congrArg (fun nodes => { c with nodes }) hnodes

theorem getElem?_modifyNode {c : Chain κ ω α} {id : NodeId} {n : Node κ ω α}
    (hn : c.nodes[id]? = some n) (f : Node κ ω α → Node κ ω α) : (c.modifyNode id f).nodes[id]? = some (f n) := by
  rw [modifyNode, Array.getElem?_modify, if_pos rfl, hn, Option.map_some]

end Chain

namespace ChainRun

theorem ext_run {t u : ChainRun κ ω α τ} (h : ∀ c, t.run c = u.run c) : t = u := funext h

section Run

variable (c : Chain κ ω α)

@[simp] theorem run_pure (a : τ) : (pure a : ChainRun κ ω α τ).run c = .done (.ok a, c) := rfl

theorem run_bind (t : ChainRun κ ω α τ) (f : τ → ChainRun κ ω α υ) :
    (t >>= f).run c = (t.run c).bind fun
      | (.ok a, c) => (f a).run c
      | (.error e, c) => .done (.error e, c) := by
  change StateT.run (ExceptT.run t >>= ExceptT.bindCont f) c = _
  rw [StateT.run_bind]
  change (StateT.run (ExceptT.run t) c).bind _ = _
  congr 1
  funext p
  obtain ⟨answer, c'⟩ := p
  cases answer <;> rfl

@[simp] theorem run_script (p : Script κ ω τ) :
    (script p : ChainRun κ ω α τ).run c = p.bind fun a => .done (.ok a, c) := by
  change (p.bind fun a => .done (a, c)).bind _ = _
  rw [Script.bind_assoc]
  rfl

@[simp] theorem run_demand (p : Script κ ω (Except Failure τ)) :
    (demand p : ChainRun κ ω α τ).run c = p.bind fun a => .done (a, c) := rfl

@[simp] theorem run_throw (f : Failure) :
    (throw f : ChainRun κ ω α τ).run c = .done (.error f, c) := rfl

@[simp] theorem run_chain : (chain : ChainRun κ ω α _).run c = .done (.ok c, c) := rfl

@[simp] theorem run_modify (f : Chain κ ω α → Chain κ ω α) :
    (modify f : ChainRun κ ω α Unit).run c = .done (.ok (), f c) := rfl

@[simp] theorem run_set (c' : Chain κ ω α) :
    (set c' : ChainRun κ ω α PUnit).run c = .done (.ok (), c') := rfl

@[simp] theorem run_modifyScratch (f : Scratch → Scratch) :
    (modifyScratch f : ChainRun κ ω α Unit).run c =
      .done (.ok (), { c with scratch := f c.scratch }) := rfl

theorem run_node_of {c : Chain κ ω α} {id : NodeId} {n : Node κ ω α} (hn : c.nodes[id]? = some n) :
    (node id).run c = .done (.ok n, c) := by
  simp only [node, run_bind, run_chain, Script.bind, hn, run_pure]

end Run

section Laid

variable (name : String) (attached : Bool) (tokens l m r : List (Token κ ω α)) (t k : Token κ ω α)
  (pos : Nat) (scopes : List NodeId) (scratch : Scratch)

theorem run_node {i : Nat} (h : tokens[i]? = some t) :
    (node i).run (Chain.laid name attached tokens pos scopes scratch) =
      .done (.ok (t.node tokens.length i), Chain.laid name attached tokens pos scopes scratch) := by
  have hi : (arena tokens)[i]? = some (t.node tokens.length i) := by rw [getElem?_arena, h]; rfl
  simp only [node, run_bind, run_chain, Script.bind, Chain.laid, hi, run_pure]

theorem run_node_mid :
    (node l.length).run (Chain.laid name attached (l ++ t :: r) pos scopes scratch) =
      .done (.ok (t.node (l ++ t :: r).length l.length),
        Chain.laid name attached (l ++ t :: r) pos scopes scratch) :=
  run_node name attached _ t pos scopes scratch (getElem?_mid l r t)

theorem laid_modify (f : Command κ ω α → Command κ ω α) :
    (Chain.laid name attached (l ++ t :: r) pos scopes scratch).modifyNode l.length
        (fun node => { node with command := f node.command }) =
      Chain.laid name attached (l ++ { t with command := f t.command } :: r) pos scopes scratch := by
  have hlen : (l ++ { t with command := f t.command } :: r).length = (l ++ t :: r).length := by
    simp only [List.length_append, List.length_cons]
  have hn : (arena (l ++ t :: r)).modify l.length
      (fun node => { node with command := f node.command }) =
        arena (l ++ { t with command := f t.command } :: r) := arena_modify l r fun _ => rfl
  simp only [Chain.modifyNode, Chain.laid, hn, hlen]

theorem run_setCommand (command : Command κ ω α) :
    (setCommand l.length command).run
        (Chain.laid name attached (l ++ t :: r) pos scopes scratch) =
      .done (.ok (), Chain.laid name attached (l ++ { t with command } :: r) pos scopes scratch) := by
  unfold setCommand
  rw [run_modify, laid_modify name attached l r t pos scopes scratch fun _ => command]

theorem run_openScope (id : NodeId) :
    (openScope id).run (Chain.laid name attached tokens pos scopes scratch) =
      .done (.ok (), Chain.laid name attached tokens pos (id :: scopes) scratch) := rfl

theorem run_closeScope (id : NodeId) (closer : Opcode) :
    (closeScope closer).run (Chain.laid name attached tokens pos (id :: scopes) scratch) =
      .done (.ok id, Chain.laid name attached tokens pos scopes scratch) := rfl

theorem run_modifyScratch_laid (f : Scratch → Scratch) :
    (modifyScratch f).run (Chain.laid name attached tokens pos scopes scratch) =
      .done (.ok (), Chain.laid name attached tokens pos scopes (f scratch)) := rfl

def left (t : Token κ ω α) : Token κ ω α :=
  { t with command := if t.command.opcode = .beginRepeat then t.command else t.command.reset }

theorem run_leave :
    (leave l.length).run (Chain.laid name attached (l ++ t :: r) pos scopes scratch) =
      .done (.ok (), Chain.laid name attached (l ++ left t :: r) pos scopes scratch) := by
  have hf : (fun node : Node κ ω α => if node.command.opcode = .beginRepeat then node
      else { node with command := node.command.reset }) = fun node =>
        { node with
          command :=
            if node.command.opcode = .beginRepeat then node.command else node.command.reset } := by
    funext node
    split <;> rfl
  unfold leave
  rw [run_modify, hf, laid_modify name attached l r t pos scopes scratch fun command =>
    if command.opcode = .beginRepeat then command else command.reset]
  rfl

theorem run_moveAfter :
    (moveAfter l.length).run (Chain.laid name attached (l ++ t :: r) pos scopes scratch) =
      .done (.ok (), Chain.laid name attached (l ++ t :: r) (l.length + 1) scopes scratch) := by
  simp only [moveAfter, run_bind, run_node_mid, Script.bind, run_modify]
  rfl

end Laid

end ChainRun
end FrameChain
