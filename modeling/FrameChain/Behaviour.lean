import FrameChain.Script

set_option autoImplicit false

/-!
# Behaviours

A behaviour says how components of a type answer their callbacks. The component is handed over for the
time of the callback and comes back with the outcome, whether it failed or not.
-/
namespace FrameChain

inductive Callback where
  /-- Once, before `attach`. -/
  | init
  /-- Once, when the component joins its entity. -/
  | attach
  /-- Once a frame while the component runs. -/
  | update (delta absolute : Seconds)
  /-- For each message on a key that the component subscribed to. -/
  | message (m : Message)
  /-- Once, after the component was finished. -/
  | finish
  /-- Once, after the component was detached. -/
  | detach
  /-- The last callback, before the component is dropped. -/
  | remove

abbrev Behaviour (κ ω : Type) :=
  Callback → Caller → κ → Script κ ω (Except Failure Unit × κ)

end FrameChain
