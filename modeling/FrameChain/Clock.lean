import FrameChain.Failure

set_option autoImplicit false

/-!
# The frame clock

The first frame starts the clock and takes no time; every later frame adds one step, scaled by the
speed.
-/
namespace FrameChain

inductive Speed where
  | normal
  | half
  | double
deriving DecidableEq, Repr, Inhabited

namespace Speed

def scale : Speed → Float
  | normal => 1.0
  | half => 0.5
  | double => 2.0

def text : Speed → String
  | normal => "normal"
  | half => "half"
  | double => "double"

def all : List Speed := [normal, half, double]

def ofText? (s : String) : Option Speed := all.find? fun speed => speed.text == s

theorem ofText?_text (speed : Speed) : ofText? speed.text = some speed := by
  cases speed <;> decide

end Speed

structure FrameTime where
  frame : Frame
  delta : Seconds
  absolute : Seconds

structure Clock where
  frame : Frame := 0
  absolute : Seconds := 0
  step : Seconds
  speed : Speed := .normal
  paused : Bool := false

namespace Clock

/-- A paused clock must not be advanced. -/
def advance (clock : Clock) : Except Precondition (FrameTime × Clock) :=
  if clock.paused then .error .advanceWhileRunning
  else
    let delta := if clock.frame = 0 then 0.0 else clock.step * clock.speed.scale
    let frame := clock.frame + 1
    let absolute := clock.absolute + delta
    .ok (⟨frame, delta, absolute⟩, { clock with frame, absolute })

def pause (clock : Clock) : Clock := { clock with paused := true }

def resume (clock : Clock) : Clock := { clock with paused := false }

theorem advance_eq_error_iff (clock : Clock) (p : Precondition) :
    clock.advance = .error p ↔ clock.paused = true ∧ p = .advanceWhileRunning := by
  cases h : clock.paused with
  | false => simp [advance, h]
  | true => simpa [advance, h] using eq_comm

/-- Frames are numbered one by one, and nothing but the frame and the time moves. -/
theorem advance_frame {clock later : Clock} {time : FrameTime}
    (h : clock.advance = .ok (time, later)) :
    later = { clock with frame := clock.frame + 1, absolute := clock.absolute + time.delta } ∧
      time.frame = later.frame ∧ time.absolute = later.absolute := by
  unfold advance at h
  split at h
  · cases h
  · cases h
    exact ⟨rfl, rfl, rfl⟩

end Clock
end FrameChain
