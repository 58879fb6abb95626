import FrameChain.Clock

set_option autoImplicit false

/-! # Run settings -/
namespace FrameChain

structure Config where
  /-- Frames per simulated second. -/
  frameRate : Float := 60.0
  speed : Speed := .normal
  /-- The master seed of every random stream. -/
  seed : UInt64 := 42
  frames : UInt64 := 600

def Config.step (config : Config) : Seconds := 1.0 / config.frameRate

end FrameChain
