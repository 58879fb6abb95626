set_option autoImplicit false

/-!
# Component lifecycle

A component moves forward only: new, initialized, running, then finished or detached, then removed.
Stages may be skipped.
-/
namespace FrameChain

inductive Lifecycle where
  | new
  | initialized
  | running
  | finished
  | detached
  | removed
deriving DecidableEq, Repr, Inhabited

namespace Lifecycle

/-- The component has stopped for good. -/
def isDone : Lifecycle → Bool
  | finished | detached | removed => true
  | new | initialized | running => false

def text : Lifecycle → String
  | new => "new"
  | initialized => "initialized"
  | running => "running"
  | finished => "finished"
  | detached => "detached"
  | removed => "removed"

def all : List Lifecycle := [new, initialized, running, finished, detached, removed]

def ofText? (s : String) : Option Lifecycle := all.find? fun state => state.text == s

theorem ofText?_text (state : Lifecycle) : ofText? state.text = some state := by
  cases state <;> decide

end Lifecycle
end FrameChain
