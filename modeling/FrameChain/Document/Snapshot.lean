import FrameChain.Document.Basic
import FrameChain.Scene.Snapshot

set_option autoImplicit false

/-! # Snapshot documents -/
namespace FrameChain

open Json (Fault)

def Lifecycle.shape : Shape := .variant (Lifecycle.all.map Lifecycle.text)

def Lifecycle.toJson (state : Lifecycle) : Json := .text state.text

def Lifecycle.ofJson (j : Json) : Except Fault Lifecycle := do
  match ofText? (← j.asText) with
  | some state => return state
  | none => throw .mismatched

def ComponentSnapshot.shape : Shape :=
  .record [("id", .required, .word64), ("name", .required, .text),
    ("state", .required, Lifecycle.shape)]

def ComponentSnapshot.toJson (c : ComponentSnapshot) : Json :=
  .object [("id", c.id.toJson), ("name", .text c.name), ("state", c.state.toJson)]

def ComponentSnapshot.ofJson (j : Json) : Except Fault ComponentSnapshot := do
  return {
    id := ← j.field "id" ComponentId.ofJson
    name := ← j.field "name" Json.asText
    state := ← j.field "state" Lifecycle.ofJson }

def EntitySnapshot.shape : Shape :=
  .record [("id", .required, .word64), ("name", .required, .text),
    ("tag", .optional, .option .text), ("state", .required, .word32),
    ("flags", .required, .word32), ("removing", .required, .bool),
    ("components", .required, .list ComponentSnapshot.shape)]

def EntitySnapshot.toJson (e : EntitySnapshot) : Json :=
  .object [("id", e.id.toJson), ("name", .text e.name), ("tag", .option .text e.tag),
    ("state", .nat e.state.toNat), ("flags", .nat e.flags.toNat), ("removing", .bool e.removing),
    ("components", .list (e.components.map ComponentSnapshot.toJson))]

def EntitySnapshot.ofJson (j : Json) : Except Fault EntitySnapshot := do
  return {
    id := ← j.field "id" EntityId.ofJson
    name := ← j.field "name" Json.asText
    tag := ← j.field? "tag" Json.asText
    state := ← j.field "state" Json.asWord32
    flags := ← j.field "flags" Json.asWord32
    removing := ← j.field "removing" Json.asBool
    components := ← j.field "components" (Json.asList ComponentSnapshot.ofJson) }

def Snapshot.shape : Shape :=
  .record [("frame", .required, .word64), ("absolute", .required, .real),
    ("entities", .required, .list EntitySnapshot.shape)]

def Snapshot.toJson (s : Snapshot) : Json :=
  .object [("frame", .nat s.frame), ("absolute", .finite s.absolute),
    ("entities", .list (s.entities.map EntitySnapshot.toJson))]

def Snapshot.ofJson (j : Json) : Except Fault Snapshot := do
  return {
    frame := ← j.field "frame" (Json.asNat UInt64.size)
    absolute := ← j.field "absolute" Json.asFloat
    entities := ← j.field "entities" (Json.asList EntitySnapshot.ofJson) }

end FrameChain
