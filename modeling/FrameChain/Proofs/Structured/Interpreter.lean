import FrameChain.Proofs.Structured.Program

set_option autoImplicit false

/-! The interpreter walks through a program as a tree. There are no jumps, no scope stack and no shared
scratch, and everything that survives a frame is in the spot where it stands. -/
namespace FrameChain

variable {κ ω α τ : Type}

def Param.sample : Param ω τ → Script κ ω τ
  | value a => return a
  | producer f => Script.host f

/-- How many passes of a body are left, with the one under way. -/
inductive Count where
  | endless
  | left (n : UInt32)
deriving DecidableEq, Repr

namespace Count

def of (n : UInt32) : Count := if n = 0 then endless else left n

def next : Count → Option Count
  | endless => some endless
  | left n => if 1 < n then some (left (n - 1)) else none

/-- What is left after `k` passes, unless they were too many. -/
def after : Nat → Count → Option Count
  | 0, c => some c
  | k + 1, c => c.next.bind (after k)

theorem after_endless (k : Nat) : after k endless = some endless := by
  induction k with
  | zero => rfl
  | succ k ih => exact ih

theorem after_left (n : UInt32) (hn : n ≠ 0) (k : Nat) :
    (after k (left n)).isSome ↔ k < n.toNat := by
  have hpos : 0 < n.toNat := Nat.pos_of_ne_zero fun h => hn (UInt32.toNat_inj.mp h)
  induction k generalizing n with
  | zero => simp [after, hpos]
  | succ k ih =>
    by_cases h1 : 1 < n
    · have hlt : 1 < n.toNat := UInt32.lt_iff_toNat_lt.mp h1
      have hsub : (n - 1).toNat = n.toNat - 1 :=
        UInt32.toNat_sub_of_le n 1 (UInt32.le_iff_toNat_le.mpr (Nat.le_of_lt hlt))
      have hne : n - 1 ≠ 0 := fun h => by
        have h0 := congrArg UInt32.toNat h
        rw [hsub] at h0
        have : n.toNat - 1 = 0 := h0
        omega
      have hnext := ih (n - 1) hne (by omega)
      rw [hsub] at hnext
      simp only [after, next, if_pos h1, Option.bind_some]
      exact hnext.trans (by omega)
    · have hle : ¬ 1 < n.toNat := fun h => h1 (UInt32.lt_iff_toNat_lt.mpr h)
      simp only [after, next, if_neg h1, Option.bind_none, Option.isSome_none, Bool.false_eq_true,
        false_iff]
      omega

/-- A body that is to run `n` times is begun that often, and without end for zero. -/
theorem after_of (n : UInt32) (k : Nat) : (after k (of n)).isSome ↔ n = 0 ∨ k < n.toNat := by
  by_cases hn : n = 0
  · simp [of, hn, after_endless]
  · simp [of, hn, after_left n hn]

end Count

inductive Block (κ ω α : Type) where
  | repeatTimes (times : Param ω UInt32) (count : Count)
  | doWhile (holds : HostFun ω Bool)
  | interval (seconds : Param ω Seconds)
  | ifThen (holds : HostFun ω Bool)
  /-- The first of two branches, with the other one. -/
  | ifYes (holds : HostFun ω Bool) (no : Program κ ω α)
  | ifNo (holds : HostFun ω Bool) (yes : Program κ ω α)

def Block.whole : Block κ ω α → Program κ ω α → Program κ ω α
  | repeatTimes times _, body => .repeatTimes times body .done
  | doWhile holds, body => .doWhile holds body .done
  | interval seconds, body => .interval seconds body .done
  | ifThen holds, body => .ifThen holds body .done
  | ifYes holds no, body => .ifElse holds body no .done
  | ifNo holds yes, body => .ifElse holds yes body .done

structure Level (κ ω α : Type) where
  before : Program κ ω α
  block : Block κ ω α
  after : Program κ ω α

/-- What the interpreter is about to do, and what comes after that in the same block. -/
inductive Focus (κ ω α : Type) where
  | entering (p : Program κ ω α)
  | within (e : Errand κ ω α) (rest : Program κ ω α)
  /-- At the head of a loop for another pass. -/
  | returning (times : Param ω UInt32) (count : Count) (body rest : Program κ ω α)
  /-- In the pause before a pass. -/
  | pausing (seconds : Param ω Seconds) (limit since : Seconds) (body rest : Program κ ω α)

/-- Where the interpreter stands, the innermost block first. -/
structure Spot (κ ω α : Type) where
  before : Program κ ω α := .done
  focus : Focus κ ω α
  levels : List (Level κ ω α) := []

inductive Pace (κ ω α : Type) where
  | on (s : Spot κ ω α)
  | waiting (s : Spot κ ω α)
  | failed (f : Failure) (s : Spot κ ω α)
  | ended

namespace Spot

variable (act : α → Caller → Script κ ω (Except Failure Unit)) (self : Caller) (absolute : Seconds)
  (name : String) (before : Program κ ω α) (levels : List (Level κ ω α))

def visit (e : Errand κ ω α) (rest : Program κ ω α) : Script κ ω (Pace κ ω α) := do
  match ← e.visit act self absolute name with
  | .finished e => return .on ⟨before.append (.simple e .done), .entering rest, levels⟩
  | .waiting e => return .waiting ⟨before, .within e rest, levels⟩
  | .failed f e => return .failed f ⟨before, .within e rest, levels⟩

def enter (block : Block κ ω α) (body rest : Program κ ω α) : Pace κ ω α :=
  .on ⟨.done, .entering body, ⟨before, block, rest⟩ :: levels⟩

def pause (seconds : Param ω Seconds) (limit since : Seconds) (body rest : Program κ ω α) :
    Pace κ ω α :=
  if absolute - since ≥ limit then enter before levels (.interval seconds) body rest
  else .waiting ⟨before, .pausing seconds limit since body rest, levels⟩

def exit (body : Program κ ω α) (f : Level κ ω α) : Pace κ ω α :=
  .on ⟨f.before.append (f.block.whole body), .entering f.after, levels⟩

def close (body : Program κ ω α) (f : Level κ ω α) : Script κ ω (Pace κ ω α) :=
  match f.block with
  | .repeatTimes times count =>
    match count.next with
    | some count => return .on ⟨f.before, .returning times count body f.after, levels⟩
    | none => return exit levels body f
  | .doWhile holds => do
    if ← .host holds then return .on ⟨f.before, .entering (.doWhile holds body f.after), levels⟩
    else return exit levels body f
  | .interval seconds =>
    return .on ⟨f.before, .entering (.interval seconds body f.after), levels⟩
  | .ifThen _ | .ifYes .. | .ifNo .. => return exit levels body f

def begin : Program κ ω α → Script κ ω (Pace κ ω α)
  | .done =>
    match levels with
    | [] => return .ended
    | f :: outer => close outer before f
  | .simple e rest => visit act self absolute name before levels e.fresh rest
  | .repeatTimes times body rest => do
    let n ← times.sample
    return enter before levels (.repeatTimes times (.of n)) body rest
  | .doWhile holds body rest => return enter before levels (.doWhile holds) body rest
  | .interval seconds body rest => do
    let limit ← seconds.sample
    return pause absolute before levels seconds limit absolute body rest
  | .ifThen holds yes rest => do
    if ← .host holds then return enter before levels (.ifThen holds) yes rest
    else return .on ⟨before.append (.ifThen holds yes .done), .entering rest, levels⟩
  | .ifElse holds yes no rest => do
    if ← .host holds then return enter before levels (.ifYes holds no) yes rest
    else return enter before levels (.ifNo holds yes) no rest

/-- One step: a visit to an errand, or a way into or out of a block. -/
def step (s : Spot κ ω α) : Script κ ω (Pace κ ω α) :=
  match s.focus with
  | .entering p => begin act self absolute name s.before s.levels p
  | .within e rest => visit act self absolute name s.before s.levels e rest
  | .returning times count body rest =>
    return enter s.before s.levels (.repeatTimes times count) body rest
  | .pausing seconds limit since body rest =>
    return pause absolute s.before s.levels seconds limit since body rest

/-- Steps until one has to wait, as long as the component is not done. True at the program's end. -/
def run (act : α → Caller → Script κ ω (Except Failure Unit)) (self : Caller) (absolute : Seconds)
    (name : String) : Nat → Spot κ ω α → Script κ ω (Except Failure Bool × Spot κ ω α)
  | 0, _ => .crash .exhausted
  | fuel + 1, s => do
    if (← .scene).isDone self.component then return (.ok false, s)
    else
      match ← s.step act self absolute name with
      | .on s => run act self absolute name fuel s
      | .waiting s => return (.ok false, s)
      | .failed f s => return (.error f, s)
      | .ended => do
        Script.request .finish
        return (.ok true, s)

end Spot

def Errand.notice (m : Message) : Errand κ ω α → Errand κ ω α
  | waitForMessage key condition (some arrived) =>
    waitForMessage key condition (some (arrived || key == m.key))
  | e => e

def Focus.notice (m : Message) : Focus κ ω α → Focus κ ω α
  | within e rest => within (e.notice m) rest
  | focus => focus

def Focus.key? : Focus κ ω α → Option String
  | within (.waitForMessage key _ (some _)) _ => some key
  | _ => none

inductive Stage (κ ω α : Type) where
  | ready (p : Program κ ω α)
  | running (s : Spot κ ω α)

def Stage.spot : Stage κ ω α → Spot κ ω α
  | ready p => { focus := .entering p }
  | running s => s

/-- A component that performs a program. -/
structure Performer (κ ω α : Type) where
  name : String
  attached : Bool := false
  finished : Bool := false
  stage : Stage κ ω α

namespace Performer

def key? (p : Performer κ ω α) : Option String := if p.finished then none else p.stage.spot.focus.key?

def behaviour (act : α → Caller → Script κ ω (Except Failure Unit)) (fuel : Nat) :
    Callback → Caller → Performer κ ω α → Script κ ω (Except Failure Unit × Performer κ ω α)
  | .init, _, p => return (.ok (), { p with attached := true })
  | .update _ absolute, self, p =>
    if p.finished then return (.error (.chainFinished p.name), p)
    else do
      match ← p.stage.spot.run act self absolute p.name fuel with
      | (.ok finished, s) => return (.ok (), { p with stage := .running s, finished })
      | (.error f, s) => return (.error f, { p with stage := .running s })
  | .message m, _, p =>
    match p.stage with
    | .ready _ => return (.ok (), p)
    | .running s =>
      return (.ok (), { p with stage := .running { s with focus := s.focus.notice m } })
  | .finish, _, p | .detach, _, p =>
    match p.key? with
    | some key => do
      Script.request (.unsubscribe key)
      return (.ok (), { p with finished := true })
    | none => return (.ok (), { p with finished := true })
  | .attach, _, p | .remove, _, p => return (.ok (), p)

end Performer
end FrameChain
