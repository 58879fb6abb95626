import FrameChain.Chain.Basic

set_option autoImplicit false

/-!
# Building and joining chains

Commands are appended at the tail. Whole chains are joined at either end, and the last command can be
taken off, as long as the chains involved have neither started nor been attached.
-/
namespace FrameChain.Chain

variable {κ ω α : Type}

def append (c : Chain κ ω α) (command : Command κ ω α) : Chain κ ω α :=
  let id := c.nodes.size
  let linked : Chain κ ω α :=
    match c.tail with
    | some tail => c.modifyNode tail fun node => { node with next := some id }
    | none => { c with head := some id }
  { linked with
    nodes := linked.nodes.push { command, previous := c.tail }
    tail := some id
    jumpsStale := true }

def interruptIf (c : Chain κ ω α) (holds : HostFun ω Bool) : Chain κ ω α :=
  { c with interrupts := c.interrupts ++ [holds] }

def ensureIdle (c : Chain κ ω α) : Except Failure Unit :=
  if c.started || c.attached then .error (.chainRunning c.name) else .ok ()

/-- The nodes of a list of commands that fill an arena from index `first` on, linked in order. -/
def linkedFrom (first : NodeId) (commands : List (Command κ ω α)) : List (Node κ ω α) :=
  commands.mapIdx fun i command =>
    { command
      previous := if i = 0 then none else some (first + i - 1)
      next := if i + 1 = commands.length then none else some (first + i + 1) }

/-- A chain without commands; what was added to its interrupts stays. -/
def emptied (c : Chain κ ω α) : Chain κ ω α :=
  { c with nodes := #[], head := none, tail := none, jumpsStale := true }

/-- The arena with the donor's commands added behind, and the ends of the part added. -/
def adopt (c donor : Chain κ ω α) : Chain κ ω α × Option (NodeId × NodeId) :=
  let first := c.nodes.size
  let added := linkedFrom first donor.commands
  if added.isEmpty then (c, none)
  else
    ({ c with nodes := c.nodes ++ added, jumpsStale := true },
      some (first, first + added.length - 1))

/-- The donor's commands after those of `c`; the donor is left empty. -/
def mergeWith (c donor : Chain κ ω α) : Except Failure (Chain κ ω α × Chain κ ω α) := do
  c.ensureIdle
  donor.ensureIdle
  match c.adopt donor with
  | (c, none) => return (c, donor.emptied)
  | (c, some (head, tail)) =>
    let joined : Chain κ ω α :=
      match c.tail with
      | some last =>
        (c.modifyNode last fun node => { node with next := some head }).modifyNode head
          fun node => { node with previous := some last }
      | none => { c with head := some head }
    return ({ joined with tail := some tail }, donor.emptied)

/-- The donor's commands before those of `c`; the donor is left empty. -/
def mergeAtBeginning (c donor : Chain κ ω α) : Except Failure (Chain κ ω α × Chain κ ω α) := do
  c.ensureIdle
  donor.ensureIdle
  match c.adopt donor with
  | (c, none) => return (c, donor.emptied)
  | (c, some (head, tail)) =>
    let joined : Chain κ ω α :=
      match c.head with
      | some first =>
        (c.modifyNode tail fun node => { node with next := some first }).modifyNode first
          fun node => { node with previous := some tail }
      | none => { c with tail := some tail }
    return ({ joined with head := some head }, donor.emptied)

/-- Takes the last command off; an empty chain stays as it is. -/
def removeLast (c : Chain κ ω α) : Except Failure (Chain κ ω α) := do
  c.ensureIdle
  match c.tail with
  | none => return c
  | some tail =>
    let previous := c.nodes[tail]?.bind (·.previous)
    let unlinked := c.modifyNode tail fun node => { node with previous := none }
    let cut : Chain κ ω α :=
      match previous with
      | some id => unlinked.modifyNode id fun node => { node with next := none }
      | none => { unlinked with head := none }
    return { cut with tail := previous, jumpsStale := true }

end FrameChain.Chain
