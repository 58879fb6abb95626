import FrameChain.Ids
import FrameChain.Json.Value

set_option autoImplicit false

/-! # Messages -/
namespace FrameChain

structure Message where
  key : String
  data : Json
  /-- The entity that sent the message. A message without one passes no filter. -/
  origin : Option EntityId

end FrameChain
