import FrameChain.Document.Basic
import FrameChain.Event

set_option autoImplicit false

/-!
# Event documents

An event is an object whose `type` is the event's kind.
-/
namespace FrameChain

open Json (Fault)

namespace Event

def shape : Shape :=
  let frame := ("frame", Presence.required, Shape.word64)
  let entity := ("entity", Presence.required, Shape.word64)
  let component := ("component", Presence.required, Shape.word64)
  let name := ("name", Presence.required, Shape.text)
  .tagged "type"
    [("entity_added", [frame, entity, name]),
      ("entity_removed", [frame, entity]),
      ("component_attached", [frame, entity, component, name]),
      ("component_finished", [frame, entity, component, name]),
      ("component_detached", [frame, entity, component, name]),
      ("component_removed", [frame, entity, component]),
      ("message_sent", [frame, ("key", .required, .text), ("origin", .optional, .option .word64)])]

def fields : Event → List (String × Json)
  | entityAdded frame entity name =>
    [("frame", .nat frame), ("entity", entity.toJson), ("name", .text name)]
  | entityRemoved frame entity => [("frame", .nat frame), ("entity", entity.toJson)]
  | componentAttached frame entity component name
  | componentFinished frame entity component name
  | componentDetached frame entity component name =>
    [("frame", .nat frame), ("entity", entity.toJson), ("component", component.toJson),
      ("name", .text name)]
  | componentRemoved frame entity component =>
    [("frame", .nat frame), ("entity", entity.toJson), ("component", component.toJson)]
  | messageSent frame key origin =>
    [("frame", .nat frame), ("key", .text key), ("origin", .option EntityId.toJson origin)]

def toJson (event : Event) : Json := .object (("type", .text event.kind) :: event.fields)

def ofJson (j : Json) : Except Fault Event := do
  let kind ← j.field "type" Json.asText
  let frame ← j.field "frame" (Json.asNat UInt64.size)
  if kind = "message_sent" then
    return messageSent frame (← j.field "key" Json.asText) (← j.field? "origin" EntityId.ofJson)
  let entity ← j.field "entity" EntityId.ofJson
  if kind = "entity_added" then return entityAdded frame entity (← j.field "name" Json.asText)
  if kind = "entity_removed" then return entityRemoved frame entity
  let component ← j.field "component" ComponentId.ofJson
  if kind = "component_removed" then return componentRemoved frame entity component
  let name ← j.field "name" Json.asText
  if kind = "component_attached" then return componentAttached frame entity component name
  if kind = "component_finished" then return componentFinished frame entity component name
  if kind = "component_detached" then return componentDetached frame entity component name
  throw .mismatched

end Event

end FrameChain
