import FrameChain.Message
import FrameChain.Document.Basic

set_option autoImplicit false

/-! # Message documents -/
namespace FrameChain

open Json (Fault)

def Message.shape : Shape :=
  .record [("key", .required, .text), ("data", .required, .any),
    ("origin", .optional, .option .word64)]

def Message.toJson (m : Message) : Json :=
  .object [("key", .text m.key), ("data", m.data), ("origin", .option EntityId.toJson m.origin)]

def Message.ofJson (j : Json) : Except Fault Message := do
  return {
    key := ← j.field "key" Json.asText
    data := ← j.field "data" .ok
    origin := ← j.field? "origin" EntityId.ofJson }

end FrameChain
