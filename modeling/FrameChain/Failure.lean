import FrameChain.Ids
import FrameChain.Chain.Opcode
import FrameChain.Json.Fault

set_option autoImplicit false

/-!
# Failures and crashes

A failure is an answer of an operation, and the scene goes on after it. A crash ends the run: a
precondition of the caller was broken, or an unbounded computation used up its fuel.
-/
namespace FrameChain

inductive Failure where
  | unreadable (fault : Json.Fault)
  | entityNotFound (id : EntityId)
  | componentNotFound (id : ComponentId)
  | componentNameNotFound (entity : EntityId) (name : String)
  /-- The component is out of its slot because one of its callbacks is running. -/
  | componentBusy (id : ComponentId)
  | unmatchedCommand (chain : String) (opcode expected : Opcode)
  | emptyScope (chain : String) (opcode : Opcode)
  | scopeMismatch (chain : String) (opener closer : Opcode)
  | unterminatedScope (chain : String) (depth : Nat)
  | chainRunning (chain : String)
  | chainFinished (chain : String)
  | componentConsumed (chain : String) (opcode : Opcode)
  | other (text : String)
deriving DecidableEq, Repr

private def inChain (chain rest : String) : String := "Chain '" ++ chain ++ "'" ++ rest

def Failure.message : Failure → String
  | unreadable fault => "Serialization error: " ++ fault.text
  | entityNotFound id => "Entity " ++ id.text ++ " not found"
  | componentNotFound id => "Component " ++ id.text ++ " not found"
  | componentNameNotFound entity name =>
      "No component named '" ++ name ++ "' on entity " ++ entity.text
  | componentBusy id => "Component " ++ id.text ++ " is already executing a callback"
  | unmatchedCommand chain opcode expected =>
      inChain chain (": " ++ opcode.text ++ " has no matching " ++ expected.text)
  | emptyScope chain opcode => inChain chain (": " ++ opcode.text ++ " found an empty scope stack")
  | scopeMismatch chain opener closer =>
      inChain chain (": " ++ closer.text ++ " closed a " ++ opener.text ++ " block")
  | unterminatedScope chain depth =>
      inChain chain (" ran out of commands with " ++ toString depth ++ " open block(s)")
  | chainRunning chain => inChain chain " is already running and cannot be restructured"
  | chainFinished chain => inChain chain " has already finished"
  | componentConsumed chain opcode =>
      inChain chain (": the component given to " ++ opcode.text
        ++ " was already attached; use a factory to attach one per pass")
  | other text => text

inductive Precondition where
  | tickWhileRunning
  | advanceWhileRunning
  | positiveBound
deriving DecidableEq, Repr

def Precondition.message : Precondition → String
  | tickWhileRunning => "tick() called on paused engine"
  | advanceWhileRunning => "advance() called on paused clock"
  | positiveBound => "n must be > 0"

inductive Crash where
  | broken (condition : Precondition)
  /-- A reference that leads to no command of its chain. -/
  | dangling (node : Nat)
  /-- The fuel of an unbounded loop ran out. -/
  | exhausted
deriving DecidableEq, Repr

end FrameChain
