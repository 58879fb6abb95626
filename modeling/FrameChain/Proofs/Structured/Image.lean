import FrameChain.Proofs.Structured.Interpreter
import FrameChain.Proofs.Structured.Layout

set_option autoImplicit false

namespace FrameChain

variable {κ ω α τ : Type}

def Count.opener (times : Param ω UInt32) : Count → Command κ ω α
  | endless => .beginRepeat ⟨times, some 0⟩ true
  | left n => .beginRepeat ⟨times, some n⟩ false

namespace Block

def opening (n : Nat) : Block κ ω α → List (Token κ ω α)
  | repeatTimes times count => [⟨count.opener times, none⟩]
  | doWhile holds => [⟨.beginWhile holds, none⟩]
  | interval seconds => [⟨.beginInterval ⟨seconds, none⟩, none⟩]
  | ifThen holds | ifYes holds _ => [⟨.beginIf holds, some (n + 1)⟩]
  | ifNo holds yes =>
    ⟨.beginIf holds, some (yes.tokens.length + 1)⟩ :: (yes.tokens ++ [⟨.otherwise, some (n + 1)⟩])

def closing : Block κ ω α → List (Token κ ω α)
  | repeatTimes .. => [⟨.endRepeat, none⟩]
  | doWhile _ => [⟨.endWhile, none⟩]
  | interval _ => [⟨.endInterval, none⟩]
  | ifThen _ | ifNo .. => [⟨.endIf, none⟩]
  | ifYes _ no => ⟨.otherwise, some (no.tokens.length + 1)⟩ :: (no.tokens ++ [⟨.endIf, none⟩])

def rested (n : Nat) : Block κ ω α → List (Token κ ω α)
  | repeatTimes times _ => [⟨.beginRepeat ⟨times, none⟩ false, none⟩]
  | b => b.opening n

theorem length_rested (b : Block κ ω α) (n : Nat) : (b.rested n).length = (b.opening n).length := by
  cases b <;> rfl

theorem tokens_whole (b : Block κ ω α) (body : Program κ ω α) :
    (b.whole body).tokens = b.rested body.tokens.length ++ (body.tokens ++ b.closing) := by
  cases b <;> simp [whole, rested, opening, closing, Program.tokens]

theorem closing_ifYes (holds : HostFun ω Bool) (no : Program κ ω α) (rest : List (Token κ ω α)) :
    (ifYes holds no).closing ++ rest =
      ⟨.otherwise, some (no.tokens.length + 1)⟩ :: (no.tokens ++ ⟨.endIf, none⟩ :: rest) := by
  simp [closing]

theorem length_closing_ifYes (holds : HostFun ω Bool) (no : Program κ ω α) :
    (ifYes holds no).closing.length = no.tokens.length + 1 + 1 := by
  simp [closing]

theorem opening_ifNo (holds : HostFun ω Bool) (yes : Program κ ω α) (n : Nat)
    (rest : List (Token κ ω α)) :
    (ifNo holds yes).opening n ++ rest =
      ⟨.beginIf holds, some (yes.tokens.length + 1)⟩ ::
        (yes.tokens ++ ⟨.otherwise, some (n + 1)⟩ :: rest) := by
  simp [opening]

theorem length_opening_ifNo (holds : HostFun ω Bool) (yes : Program κ ω α) (n : Nat) :
    ((ifNo holds yes).opening n).length = yes.tokens.length + 1 + 1 := by
  simp [opening]

def isLoop : Block κ ω α → Bool
  | repeatTimes .. | doWhile _ | interval _ => true
  | ifThen _ | ifYes .. | ifNo .. => false

end Block

namespace Level

def size (n : Nat) (f : Level κ ω α) : Nat :=
  f.before.tokens.length + ((f.block.opening n).length + n + f.block.closing.length +
    f.after.tokens.length)

theorem size_eq (f : Level κ ω α) (body : Program κ ω α) :
    f.size body.tokens.length = f.before.tokens.length +
      ((f.block.whole body).tokens.length + f.after.tokens.length) := by
  simp only [size, Block.tokens_whole, List.length_append, Block.length_rested, Nat.add_assoc]

end Level

/-- The commands before the innermost body, where that has `n`. -/
def lefts (n : Nat) : List (Level κ ω α) → List (Token κ ω α)
  | [] => []
  | f :: outer => (lefts (f.size n) outer ++ f.before.tokens) ++ f.block.opening n

def rights : List (Level κ ω α) → List (Token κ ω α)
  | [] => []
  | f :: outer => f.block.closing ++ (f.after.tokens ++ rights outer)

theorem rights_ne_nil (f : Level κ ω α) (outer : List (Level κ ω α)) : rights (f :: outer) ≠ [] := by
  cases hb : f.block <;> simp [rights, Block.closing, hb]

def openers (n : Nat) : List (Level κ ω α) → List NodeId
  | [] => []
  | f :: outer =>
    if f.block.isLoop then
      (lefts (f.size n) outer ++ f.before.tokens).length :: openers (f.size n) outer
    else openers (f.size n) outer

namespace Level

variable (f : Level κ ω α) (n : Nat) (levels : List (Level κ ω α))

def lead : List (Token κ ω α) := lefts (f.size n) levels ++ f.before.tokens

def trail : List (Token κ ω α) := f.after.tokens ++ rights levels

def scopes : List NodeId := openers (f.size n) levels

def inner : List NodeId :=
  if f.block.isLoop then (f.lead n levels).length :: f.scopes n levels else f.scopes n levels

end Level

namespace Focus

def tokens : Focus κ ω α → List (Token κ ω α)
  | entering p => p.tokens
  | within e rest => ⟨e.command, none⟩ :: rest.tokens
  | returning times count body rest =>
    ⟨count.opener times, none⟩ :: (body.tokens ++ ⟨.endRepeat, none⟩ :: rest.tokens)
  | pausing seconds limit _ body rest =>
    ⟨.beginInterval ⟨seconds, some limit⟩, none⟩ ::
      (body.tokens ++ ⟨.endInterval, none⟩ :: rest.tokens)

def scratch : Focus κ ω α → Scratch
  | within e _ => e.scratch
  | pausing _ _ since _ _ => { waitStart := some since }
  | _ => {}

end Focus

namespace Spot

def size (s : Spot κ ω α) : Nat := s.before.tokens.length + s.focus.tokens.length

def left (s : Spot κ ω α) : List (Token κ ω α) := lefts s.size s.levels ++ s.before.tokens

def right (s : Spot κ ω α) : List (Token κ ω α) := s.focus.tokens ++ rights s.levels

/-- The running chain that stands where the interpreter stands. -/
def chain (name : String) (attached : Bool) (s : Spot κ ω α) : Chain κ ω α :=
  Chain.laid name attached (s.left ++ s.right) s.left.length (openers s.size s.levels) s.focus.scratch

variable (name : String) (attached : Bool)

theorem chain_at (before : Program κ ω α) (focus : Focus κ ω α) (levels : List (Level κ ω α))
    {n : Nat} (hn : before.tokens.length + focus.tokens.length = n) :
    chain name attached ⟨before, focus, levels⟩ =
      Chain.laid name attached
        ((lefts n levels ++ before.tokens) ++ (focus.tokens ++ rights levels))
        (lefts n levels ++ before.tokens).length (openers n levels) focus.scratch := by
  subst hn
  rfl

theorem chain_past (before moved rest : Program κ ω α) (levels : List (Level κ ω α)) {n : Nat}
    (hn : before.tokens.length + (moved.tokens.length + rest.tokens.length) = n) :
    chain name attached ⟨before.append moved, .entering rest, levels⟩ =
      Chain.laid name attached
        ((lefts n levels ++ before.tokens) ++ (moved.tokens ++ (rest.tokens ++ rights levels)))
        ((lefts n levels ++ before.tokens).length + moved.tokens.length) (openers n levels) {} := by
  have hm : (before.append moved).tokens.length + rest.tokens.length = n := by
    rw [Program.tokens_append, List.length_append, Nat.add_assoc]
    exact hn
  rw [chain_at name attached _ (.entering rest) levels hm, Program.tokens_append]
  simp only [List.append_assoc, List.length_append, Nat.add_assoc, Focus.tokens, Focus.scratch]

section Block

variable (f : Level κ ω α) (body : Program κ ω α) (levels : List (Level κ ω α))

theorem chain_before :
    chain name attached ⟨f.before, .entering ((f.block.whole body).append f.after), levels⟩ =
      Chain.laid name attached
        (f.lead body.tokens.length levels ++ (f.block.rested body.tokens.length ++
          (body.tokens ++ (f.block.closing ++ f.trail levels))))
        (f.lead body.tokens.length levels).length (f.scopes body.tokens.length levels) {} := by
  have hn : f.before.tokens.length + ((f.block.whole body).append f.after).tokens.length =
      f.size body.tokens.length := by
    rw [Program.tokens_append, List.length_append, Level.size_eq]
  rw [chain_at name attached _ (.entering _) levels hn]
  simp only [Focus.tokens, Focus.scratch, Program.tokens_append, Block.tokens_whole,
    List.append_assoc, Level.lead, Level.trail, Level.scopes]

theorem chain_behind :
    chain name attached ⟨f.before.append (f.block.whole body), .entering f.after, levels⟩ =
      Chain.laid name attached
        ((f.lead body.tokens.length levels ++ (f.block.rested body.tokens.length ++ body.tokens)) ++
          (f.block.closing ++ f.trail levels))
        ((f.lead body.tokens.length levels ++
          (f.block.rested body.tokens.length ++ body.tokens)).length + f.block.closing.length)
        (f.scopes body.tokens.length levels) {} := by
  rw [chain_past name attached f.before (f.block.whole body) f.after levels (f.size_eq body).symm,
    Block.tokens_whole]
  simp only [List.append_assoc, List.length_append, Nat.add_assoc, Level.lead, Level.trail,
    Level.scopes]

theorem chain_entered :
    chain name attached ⟨.done, .entering body, f :: levels⟩ =
      Chain.laid name attached
        (f.lead body.tokens.length levels ++ (f.block.opening body.tokens.length ++
          (body.tokens ++ (f.block.closing ++ f.trail levels))))
        ((f.lead body.tokens.length levels).length + (f.block.opening body.tokens.length).length)
        (f.inner body.tokens.length levels) {} := by
  rw [chain_at name attached .done (.entering body) (f :: levels) (Nat.zero_add _)]
  simp only [lefts, rights, openers, Focus.tokens, Focus.scratch, Program.tokens, List.append_nil,
    List.append_assoc, List.length_append, Nat.add_assoc, Level.lead, Level.trail, Level.inner,
    Level.scopes]

theorem chain_closing :
    chain name attached ⟨body, .entering .done, f :: levels⟩ =
      Chain.laid name attached
        ((f.lead body.tokens.length levels ++ (f.block.opening body.tokens.length ++ body.tokens)) ++
          (f.block.closing ++ f.trail levels))
        (f.lead body.tokens.length levels ++
          (f.block.opening body.tokens.length ++ body.tokens)).length
        (f.inner body.tokens.length levels) {} := by
  rw [chain_at name attached body (.entering .done) (f :: levels) rfl]
  simp only [lefts, rights, openers, Focus.tokens, Focus.scratch, Program.tokens, List.nil_append,
    List.append_assoc, Level.lead, Level.trail, Level.inner, Level.scopes]
  rfl

variable {o o' k : Token κ ω α}

theorem chain_closing_pair (ho : f.block.opening body.tokens.length = [o])
    (hk : f.block.closing = [k]) :
    chain name attached ⟨body, .entering .done, f :: levels⟩ =
      Chain.laid name attached
        (f.lead body.tokens.length levels ++ o :: (body.tokens ++ k :: f.trail levels))
        ((f.lead body.tokens.length levels).length + (body.tokens.length + 1))
        (f.inner body.tokens.length levels) {} := by
  rw [chain_closing, ho, hk, append_closer, ← length_opener _ _ o]
  rfl

theorem chain_behind_pair (ho : f.block.rested body.tokens.length = [o])
    (hk : f.block.closing = [k]) :
    chain name attached ⟨f.before.append (f.block.whole body), .entering f.after, levels⟩ =
      Chain.laid name attached
        (f.lead body.tokens.length levels ++ o :: (body.tokens ++ k :: f.trail levels))
        ((f.lead body.tokens.length levels).length + (body.tokens.length + 1) + 1)
        (f.scopes body.tokens.length levels) {} := by
  rw [chain_behind, ho, hk, append_closer, ← length_opener _ _ o]
  rfl

theorem chain_head_pair (focus : Focus κ ω α)
    (ht : focus.tokens = o :: (body.tokens ++ k :: f.after.tokens))
    (ho : f.block.opening body.tokens.length = [o']) (hk : f.block.closing = [k]) :
    chain name attached ⟨f.before, focus, levels⟩ =
      Chain.laid name attached
        (f.lead body.tokens.length levels ++ o :: (body.tokens ++ k :: f.trail levels))
        (f.lead body.tokens.length levels).length (f.scopes body.tokens.length levels)
        focus.scratch := by
  have hn : f.before.tokens.length + focus.tokens.length = f.size body.tokens.length := by
    rw [Level.size, ht, ho, hk]
    simp only [List.length_cons, List.length_append, List.length_nil]
    omega
  rw [chain_at name attached f.before focus levels hn, ht, List.cons_append,
    List.append_assoc body.tokens]
  rfl

end Block

end Spot
end FrameChain
