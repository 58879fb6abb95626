import FrameChain.Chain.Param

set_option autoImplicit false

/-!
# Plans

A scenario describes its components by plans, which are plain data. A plan can be built any number of
times, and each building starts afresh.
-/
namespace FrameChain.Scenario

inductive Comparison where
  | lt
  | le
  | eq
  | ne
  | ge
  | gt
deriving DecidableEq, Repr

def Comparison.holds : Comparison → Int → Int → Bool
  | lt, a, b => a < b
  | le, a, b => a ≤ b
  | eq, a, b => a == b
  | ne, a, b => a != b
  | ge, a, b => a ≥ b
  | gt, a, b => a > b

inductive Test where
  | const (b : Bool)
  /-- One after the other, the last one again and again. -/
  | sequence (bs : List Bool)
  | compare (var : String) (op : Comparison) (n : Int)

/-- With a label, every evaluation is traced. -/
structure PredicatePlan where
  test : Test
  label : Option String := none

inductive NumberSource where
  | var (name : String)
  | below (entity : EntityId) (n : UInt64)
  | range (entity : EntityId) (low high : Float)

/-- How values of `τ` are produced. A value in a sequence is traced as it was written. -/
inductive ProducerPlan (τ : Type) where
  | sequence (elements : List (τ × Json))
  | number (source : NumberSource) (convert : Number → τ)

inductive ParamPlan (τ : Type) where
  | value (a : τ)
  | producer (plan : ProducerPlan τ) (label : Option String)

inductive Hook where
  | init
  | attach
  | update
  | message
  | finish
  | detach
  | remove
deriving DecidableEq, Repr

def Hook.text : Hook → String
  | init => "init"
  | attach => "attach"
  | update => "update"
  | message => "message"
  | finish => "finish"
  | detach => "detach"
  | remove => "remove"

mutual

/-- Something done in a callback. The failure of a tolerant act is traced and the next act follows. -/
inductive Act where
  | mk (tolerant : Bool) (deed : Deed)

inductive Deed where
  | log (text : String)
  | set (var : String) (value : Int)
  | add (var : String) (value : Int)
  | when (condition : PredicatePlan) (acts : List Act)
  | finish
  | fail (message : String)
  /-- Reads a text as a condition and fails if it is none. -/
  | readCondition (text : String)
  | send (key : String) (data : Json)
  | subscribe (key : String) (filter : Option Condition)
  | unsubscribe (key : String)
  | removeComponent (id : ComponentId)
  | finishComponent (id : ComponentId)
  | removeEntity (id : EntityId)
  | attach (component : ComponentPlan) (entity : Option EntityId)
  | who
  | isFinishing
  | state (id : ComponentId)
  | isDone (id : ComponentId)
  | find (entity : EntityId) (name : String)
  | findWhere (condition : Condition)
  | patchEntity (entity : Option EntityId) (patch : EntityPatch)
  /-- The command on which another chain rests. -/
  | peek (id : ComponentId)

inductive ComponentPlan where
  | chain (name : String) (commands : List CommandPlan)
  | probe (name : String) (lifetime : Option Nat) (logs : Bool) (hooks : List (Hook × List Act))
  | stepper (name : String) (times : Nat) (forward : Bool) (chainName : String)
      (commands : List CommandPlan)

inductive CommandPlan where
  | beginRepeat (times : ParamPlan UInt32)
  | endRepeat
  | beginWhile (holds : PredicatePlan)
  | endWhile
  | beginInterval (seconds : ParamPlan Seconds)
  | endInterval
  | beginIf (holds : PredicatePlan)
  | otherwise
  | endIf
  | interruptIf (holds : PredicatePlan)
  | call (acts : List Act)
  | waitTime (seconds : ParamPlan Seconds)
  | waitFrames (frames : ParamPlan UInt32)
  | waitUntil (holds : PredicatePlan)
  | waitForMessage (key : String)
  | waitForMessageWhere (key : String) (condition : ParamPlan Condition)
  | waitForAll (members : List MemberPlan)
  | waitForAllOf (lists : List (List MemberPlan)) (label : Option String)
  | waitForFirst (members : List MemberPlan)
  | waitForFirstOf (lists : List (List MemberPlan)) (label : Option String)
  /-- With `fresh`, another component is built for every pass. -/
  | addComponent (component : ComponentPlan) (fresh : Bool) (target : Option (ParamPlan EntityId))
  | removeComponent (selector : ParamPlan Selector) (target : Option (ParamPlan EntityId))
  | removeEntity (target : Option (ParamPlan EntityId))
  | removeEntitiesWhere (condition : ParamPlan Condition)
  | sendMessage (key : String) (data : ParamPlan Json)

inductive MemberPlan where
  | fresh (component : ComponentPlan)
  | existing (id : ComponentId)

end

def Deed.name : Deed → String
  | log _ => "log"
  | set .. => "set"
  | add .. => "add"
  | when .. => "if"
  | finish => "finish"
  | fail _ => "fail"
  | readCondition _ => "fail_json"
  | send .. => "send"
  | subscribe .. => "subscribe"
  | unsubscribe _ => "unsubscribe"
  | removeComponent _ => "remove_component"
  | finishComponent _ => "finish_component"
  | removeEntity _ => "remove_entity"
  | attach .. => "attach"
  | who => "who"
  | isFinishing => "is_finishing"
  | state _ => "state"
  | isDone _ => "done"
  | find .. => "find"
  | findWhere _ => "where"
  | patchEntity .. => "set_entity"
  | peek _ => "peek"

end FrameChain.Scenario
