import FrameChain.Proofs.Chain.Cursor
import FrameChain.Proofs.Structured.Program

set_option autoImplicit false

namespace FrameChain

open Chain

variable {κ ω α : Type}

theorem Errand.kind_command (e : Errand κ ω α) : e.command.opcode.kind = .plain := by
  cases e with
  | waitForMembers quorum _ _ => cases quorum <;> rfl
  | waitForMessage _ condition _ => cases condition <;> rfl
  | _ => rfl

theorem append_interrupts (c : Chain κ ω α) (interrupts : List (HostFun ω Bool))
    (command : Command κ ω α) :
    ({ c with interrupts } : Chain κ ω α).append command =
      { c.append command with interrupts } := by
  cases hc : c.tail <;> simp [Chain.append, hc, Chain.modifyNode]

theorem foldl_append_eq (name : String) (interrupts : List (HostFun ω Bool))
    (commands : List (Command κ ω α)) :
    commands.foldl Chain.append { name, interrupts } =
      { Chain.idle name false (bare commands) with interrupts } := by
  have hfold (c : Chain κ ω α) : commands.foldl Chain.append { c with interrupts } =
      { commands.foldl Chain.append c with interrupts } := by
    induction commands generalizing c with
    | nil => rfl
    | cons command rest ih => rw [List.foldl_cons, append_interrupts, ih, List.foldl_cons]
  have hidle : commands.foldl Chain.append { name } = Chain.idle name false (bare commands) :=
    foldl_append_idle name false [] commands
  rw [← hidle]
  exact hfold { name }

end FrameChain
