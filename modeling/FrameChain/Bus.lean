import FrameChain.Condition
import FrameChain.Message

set_option autoImplicit false

/-!
# The message bus

Sending only queues a message; the scene takes messages off the queue at fixed points of its update.
A component holds at most one subscription per key, and a key without subscribers is not kept.
-/
namespace FrameChain

structure Subscription where
  component : ComponentId
  filter : Option Condition
deriving DecidableEq

structure Bus where
  topics : List (String × List Subscription) := []
  /-- Oldest first. -/
  queue : List Message := []

namespace Bus

/-- In the order in which they subscribed. -/
def subscribers (bus : Bus) (key : String) : List Subscription := (bus.topics.lookup key).getD []

def isSubscribed (bus : Bus) (key : String) (component : ComponentId) : Bool :=
  (bus.subscribers key).any fun s => s.component == component

/-- A second subscription only replaces the filter of the first. -/
def subscribe (bus : Bus) (key : String) (component : ComponentId) (filter : Option Condition) :
    Bus :=
  let enrol (subs : List Subscription) : List Subscription :=
    if subs.any fun s => s.component == component then
      subs.map fun s => if s.component == component then { s with filter } else s
    else subs ++ [⟨component, filter⟩]
  if bus.topics.any fun topic => topic.1 == key then
    { bus with
      topics := bus.topics.map fun topic =>
        if topic.1 == key then (topic.1, enrol topic.2) else topic }
  else { bus with topics := bus.topics ++ [(key, enrol [])] }

/-- Drops the subscriptions of `component` on the keys that `drop` selects. -/
def withdraw (bus : Bus) (drop : String → Bool) (component : ComponentId) : Bus :=
  { bus with
    topics := bus.topics.filterMap fun topic =>
      if drop topic.1 then
        let rest := topic.2.filter fun s => s.component != component
        if rest.isEmpty then none else some (topic.1, rest)
      else some topic }

def unsubscribe (bus : Bus) (key : String) (component : ComponentId) : Bus :=
  bus.withdraw (· == key) component

def unsubscribeAll (bus : Bus) (component : ComponentId) : Bus :=
  bus.withdraw (fun _ => true) component

def send (bus : Bus) (message : Message) : Bus := { bus with queue := bus.queue ++ [message] }

def pop? (bus : Bus) : Option (Message × Bus) :=
  match bus.queue with
  | [] => none
  | message :: rest => some (message, { bus with queue := rest })

def pending (bus : Bus) : Nat := bus.queue.length

/-! ## What each operation does to the queue -/

@[simp] theorem queue_subscribe (bus : Bus) (key : String) (component : ComponentId)
    (filter : Option Condition) : (bus.subscribe key component filter).queue = bus.queue := by
  unfold subscribe
  split <;> rfl

theorem pop?_eq_none_iff (bus : Bus) : bus.pop? = none ↔ bus.queue = [] := by
  unfold pop?
  split <;> simp_all

theorem pop?_eq_some_iff (bus rest : Bus) (m : Message) :
    bus.pop? = some (m, rest) ↔ bus.queue = m :: rest.queue ∧ rest.topics = bus.topics := by
  obtain ⟨topics, queue⟩ := bus
  obtain ⟨topics', queue'⟩ := rest
  cases queue with
  | nil => simp [pop?]
  | cons first others => simp [pop?, and_assoc, and_comm, eq_comm]

end Bus
end FrameChain
