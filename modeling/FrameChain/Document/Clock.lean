import FrameChain.Clock
import FrameChain.Document.Basic

set_option autoImplicit false

/-! # Clock documents -/
namespace FrameChain

open Json (Fault)

def Speed.shape : Shape := .variant (Speed.all.map Speed.text)

def Speed.toJson (speed : Speed) : Json := .text speed.text

def Speed.ofJson (j : Json) : Except Fault Speed := do
  match ofText? (← j.asText) with
  | some speed => return speed
  | none => throw .mismatched

def FrameTime.shape : Shape :=
  .record [("frame", .required, .word64), ("delta", .required, .real),
    ("absolute", .required, .real)]

def FrameTime.toJson (time : FrameTime) : Json :=
  .object [("frame", .nat time.frame), ("delta", .finite time.delta),
    ("absolute", .finite time.absolute)]

def FrameTime.ofJson (j : Json) : Except Fault FrameTime := do
  return {
    frame := ← j.field "frame" (Json.asNat UInt64.size)
    delta := ← j.field "delta" Json.asFloat
    absolute := ← j.field "absolute" Json.asFloat }

def Clock.shape : Shape :=
  .record [("frame", .required, .word64), ("absolute", .required, .real),
    ("step", .required, .real), ("speed", .required, Speed.shape), ("paused", .required, .bool)]

def Clock.toJson (clock : Clock) : Json :=
  .object [("frame", .nat clock.frame), ("absolute", .finite clock.absolute),
    ("step", .finite clock.step), ("speed", clock.speed.toJson), ("paused", .bool clock.paused)]

def Clock.ofJson (j : Json) : Except Fault Clock := do
  return {
    frame := ← j.field "frame" (Json.asNat UInt64.size)
    absolute := ← j.field "absolute" Json.asFloat
    step := ← j.field "step" Json.asFloat
    speed := ← j.field "speed" Speed.ofJson
    paused := ← j.field "paused" Json.asBool }

end FrameChain
