import FrameChain.Random
import FrameChain.Scenario.Plan

set_option autoImplicit false

/-!
# The world of a scenario

Variables that all parts share, a trace of what was logged, and the places of the sequences and random
streams in use.
-/
namespace FrameChain.Scenario

inductive TraceValue where
  | json (j : Json)
  | failure (f : Failure)

structure TraceEntry where
  label : String
  value : TraceValue

structure World where
  seed : UInt64
  values : List (String × Int) := []
  trace : Array TraceEntry := #[]
  positions : Array Nat := #[]
  streams : Array RandomStream := #[]

namespace World

/-- A variable that was never set is 0. -/
def get (w : World) (name : String) : Int := (w.values.lookup name).getD 0

def set (w : World) (name : String) (value : Int) : World :=
  { w with values := (name, value) :: w.values.filter fun entry => entry.1 != name }

def note (w : World) (label : String) (value : TraceValue) : World :=
  { w with trace := w.trace.push ⟨label, value⟩ }

def noteIf (w : World) (label : Option String) (value : Json) : World :=
  match label with
  | none => w
  | some label => w.note label (.json value)

def newPosition (w : World) : Nat × World :=
  (w.positions.size, { w with positions := w.positions.push 0 })

def newStream (w : World) (entity : EntityId) : Nat × World :=
  (w.streams.size, { w with streams := w.streams.push (.ofEntity w.seed entity) })

/-- The element at the place of a sequence, which moves on; the last element stays. -/
def step {τ : Type} (place : Nat) (elements : List τ) : HostFun World τ := fun w =>
  let index := w.positions.getD place 0
  let w := { w with positions := w.positions.setIfInBounds place (index + 1) }
  match elements[min index (elements.length - 1)]? with
  | some a => (.ok a, w)
  | none => (.error .exhausted, w)

def draw {τ : Type} (place : Nat) (f : RandomStream → Except Crash τ × RandomStream) :
    HostFun World τ := fun w =>
  match w.streams[place]? with
  | none => (.error .exhausted, w)
  | some stream =>
    let (answer, stream) := f stream
    (answer, { w with streams := w.streams.setIfInBounds place stream })

end World

/-- Maps the answer of a host function and lets it leave a trace. -/
def traced {τ υ : Type} (f : HostFun World τ) (label : Option String) (value : τ → Json)
    (g : τ → υ) : HostFun World υ := fun w =>
  match f w with
  | (.ok a, w) => (.ok (g a), w.noteIf label (value a))
  | (.error c, w) => (.error c, w)

def PredicatePlan.build (p : PredicatePlan) (w : World) : HostFun World Bool × World :=
  match p.test with
  | .const b => (traced (fun w => (.ok b, w)) p.label .bool id, w)
  | .sequence bs =>
    let (place, w) := w.newPosition
    (traced (World.step place bs) p.label .bool id, w)
  | .compare name op n =>
    (traced (fun w => (.ok (op.holds (w.get name) n), w)) p.label .bool id, w)

def NumberSource.build (source : NumberSource) (w : World) : HostFun World Number × World :=
  match source with
  | .var name => (fun w => (.ok (.int (w.get name)), w), w)
  | .below entity n =>
    let (place, w) := w.newStream entity
    let f (stream : RandomStream) : Except Crash Number × RandomStream :=
      match stream.below n with
      | (.ok a, stream) => (.ok (.int a.toNat), stream)
      | (.error broken, stream) => (.error (.broken broken), stream)
    (World.draw place f, w)
  | .range entity low high =>
    let (place, w) := w.newStream entity
    let f (stream : RandomStream) : Except Crash Number × RandomStream :=
      let (x, stream) := stream.range low high
      (.ok (.float x), stream)
    (World.draw place f, w)

def ParamPlan.build {τ : Type} (p : ParamPlan τ) (w : World) : Lazy World τ × World :=
  match p with
  | .value a => ({ param := .value a }, w)
  | .producer (.sequence elements) label =>
    let (place, w) := w.newPosition
    ({ param := .producer (traced (World.step place elements) label (·.2) (·.1)) }, w)
  | .producer (.number source convert) label =>
    let (f, w) := source.build w
    ({ param := .producer (traced f label .number convert) }, w)

end FrameChain.Scenario
