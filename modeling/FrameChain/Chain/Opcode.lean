set_option autoImplicit false

/-!
# Opcodes

The closed set of chain commands, by name only.
-/
namespace FrameChain

inductive Opcode where
  | beginRepeat
  | endRepeat
  | call
  | beginWhile
  | endWhile
  | beginInterval
  | endInterval
  | beginIf
  | otherwise
  | endIf
  | waitTime
  | addComponent
  | waitForAll
  | waitForFirst
  | waitUntil
  | waitFrames
  | waitForMessage
  | waitForMessageWhere
  | removeComponent
  | removeEntitiesWhere
  | removeEntity
  | sendMessage
deriving DecidableEq, Repr, Inhabited

def Opcode.text : Opcode → String
  | beginRepeat => "BEGIN_REPEAT"
  | endRepeat => "END_REPEAT"
  | call => "CALL"
  | beginWhile => "BEGIN_WHILE"
  | endWhile => "END_WHILE"
  | beginInterval => "BEGIN_INTERVAL"
  | endInterval => "END_INTERVAL"
  | beginIf => "BEGIN_IF"
  | otherwise => "ELSE"
  | endIf => "END_IF"
  | waitTime => "WAIT_TIME"
  | addComponent => "ADD_COMPONENT"
  | waitForAll => "WAIT_FOR_ALL"
  | waitForFirst => "WAIT_FOR_FIRST"
  | waitUntil => "WAIT_UNTIL"
  | waitFrames => "WAIT_FRAMES"
  | waitForMessage => "WAIT_FOR_MESSAGE"
  | waitForMessageWhere => "WAIT_FOR_MESSAGE_WHERE"
  | removeComponent => "REMOVE_COMPONENT"
  | removeEntitiesWhere => "REMOVE_ENTITIES_BY_QUERY"
  | removeEntity => "REMOVE_ENTITY"
  | sendMessage => "SEND_MESSAGE"

end FrameChain
