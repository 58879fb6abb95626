import FrameChain.Chain.Param

set_option autoImplicit false

/-!
# Commands

The instructions of a chain with their parameters. Predicates, producers and factories are functions of
the host's world `ω`; the actions of `call` are values of a type `α` that the host interprets. An absent
target means the chain's own entity.
-/
namespace FrameChain

inductive Command (κ ω α : Type) where
  /-- Zero times means without end, which `infinite` remembers from the count's first use. -/
  | beginRepeat (times : Lazy ω UInt32) (infinite : Bool)
  | endRepeat
  | call (action : α)
  | beginWhile (holds : HostFun ω Bool)
  | endWhile
  | beginInterval (seconds : Lazy ω Seconds)
  | endInterval
  | beginIf (holds : HostFun ω Bool)
  | otherwise
  | endIf
  | waitTime (seconds : Lazy ω Seconds)
  | addComponent (component : Source κ ω) (target : Option (Lazy ω EntityId))
  | waitForAll (set : MemberSet κ ω)
  | waitForFirst (set : MemberSet κ ω)
  /-- Waits as long as the predicate holds. -/
  | waitUntil (holds : HostFun ω Bool)
  | waitFrames (frames : Lazy ω UInt32)
  | waitForMessage (key : String)
  | waitForMessageWhere (key : String) (condition : Lazy ω Condition)
  | removeComponent (selector : Lazy ω Selector) (target : Option (Lazy ω EntityId))
  | removeEntitiesWhere (condition : Lazy ω Condition)
  | removeEntity (target : Option (Lazy ω EntityId))
  | sendMessage (key : String) (data : Lazy ω Json)

namespace Command

variable {κ ω α : Type}

def opcode : Command κ ω α → Opcode
  | beginRepeat .. => .beginRepeat
  | endRepeat => .endRepeat
  | call _ => .call
  | beginWhile _ => .beginWhile
  | endWhile => .endWhile
  | beginInterval _ => .beginInterval
  | endInterval => .endInterval
  | beginIf _ => .beginIf
  | otherwise => .otherwise
  | endIf => .endIf
  | waitTime _ => .waitTime
  | addComponent .. => .addComponent
  | waitForAll _ => .waitForAll
  | waitForFirst _ => .waitForFirst
  | waitUntil _ => .waitUntil
  | waitFrames _ => .waitFrames
  | waitForMessage _ => .waitForMessage
  | waitForMessageWhere .. => .waitForMessageWhere
  | removeComponent .. => .removeComponent
  | removeEntitiesWhere _ => .removeEntitiesWhere
  | removeEntity _ => .removeEntity
  | sendMessage .. => .sendMessage

/-- Forgets what the parameters came to, so that the next pass resolves them afresh. -/
def reset : Command κ ω α → Command κ ω α
  | beginRepeat times _ => beginRepeat times.reset false
  | beginInterval seconds => beginInterval seconds.reset
  | waitTime seconds => waitTime seconds.reset
  | addComponent component target => addComponent component (target.map Lazy.reset)
  | waitFrames frames => waitFrames frames.reset
  | waitForMessageWhere key condition => waitForMessageWhere key condition.reset
  | removeComponent selector target => removeComponent selector.reset (target.map Lazy.reset)
  | removeEntitiesWhere condition => removeEntitiesWhere condition.reset
  | removeEntity target => removeEntity (target.map Lazy.reset)
  | sendMessage key data => sendMessage key data.reset
  | endRepeat => endRepeat
  | call action => call action
  | beginWhile holds => beginWhile holds
  | endWhile => endWhile
  | endInterval => endInterval
  | beginIf holds => beginIf holds
  | otherwise => otherwise
  | endIf => endIf
  | waitForAll set => waitForAll set
  | waitForFirst set => waitForFirst set
  | waitUntil holds => waitUntil holds
  | waitForMessage key => waitForMessage key

end Command
end FrameChain
