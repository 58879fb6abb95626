import FrameChain.Condition
import FrameChain.Document.Basic

set_option autoImplicit false

/-! # Condition documents: an absent field asks for nothing -/
namespace FrameChain

open Json (Fault)

def Condition.shape : Shape :=
  .record [("name", .preset, .option .text), ("tag", .preset, .option .text),
    ("state", .preset, .option .word32), ("flags", .preset, .word32),
    ("has_component", .preset, .option .text)]

def Condition.toJson (c : Condition) : Json :=
  .object [("name", .option .text c.name), ("tag", .option .text c.tag),
    ("state", .option (fun n => .nat n.toNat) c.state), ("flags", .nat c.flags.toNat),
    ("has_component", .option .text c.hasComponent)]

def Condition.ofJson (j : Json) : Except Fault Condition := do
  return {
    name := ← j.field? "name" Json.asText
    tag := ← j.field? "tag" Json.asText
    state := ← j.field? "state" Json.asWord32
    flags := ← j.fieldD "flags" 0 Json.asWord32
    hasComponent := ← j.field? "has_component" Json.asText }

end FrameChain
