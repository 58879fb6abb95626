import FrameChain.Config
import FrameChain.Decimal.Layout
import FrameChain.Document.Clock

set_option autoImplicit false

/-!
# Settings documents

Every setting has a preset value, so the empty object is a settings document.
-/
namespace FrameChain

open Json (Fault)

def Config.shape : Shape :=
  .record [("frame_rate", .preset, .real), ("speed", .preset, Speed.shape),
    ("seed", .preset, .word64), ("frames", .preset, .word64)]

def Config.toJson (config : Config) : Json :=
  .object [("frame_rate", .finite config.frameRate), ("speed", config.speed.toJson),
    ("seed", .nat config.seed.toNat), ("frames", .nat config.frames.toNat)]

def Config.ofJson (j : Json) : Except Fault Config := do
  let preset : Config := {}
  return {
    frameRate := ← j.fieldD "frame_rate" preset.frameRate Json.asFloat
    speed := ← j.fieldD "speed" preset.speed Speed.ofJson
    seed := ← j.fieldD "seed" preset.seed Json.asWord64
    frames := ← j.fieldD "frames" preset.frames Json.asWord64 }

/-- Settings as read from a file that holds `text`. The frame rate must be positive. -/
def Config.ofText (text : String) : Except Failure Config :=
  match Config.shape.readText Config.ofJson text with
  | .error fault => .error (.unreadable fault)
  | .ok config =>
    if config.frameRate.isNaN || config.frameRate ≤ 0 then
      .error (.other ("frame_rate must be positive, got " ++ Layout.message.text config.frameRate))
    else .ok config

/-- What a file held: its bytes, or why it could not be read. -/
abbrev FileContent := Except String ByteArray

def Config.ofFile (path : String) (content : FileContent) : Except Failure Config :=
  let refuse (reason : String) : Except Failure Config :=
    .error (.other ("Cannot read " ++ path ++ ": " ++ reason))
  match content with
  | .error reason => refuse reason
  | .ok bytes =>
    match String.fromUTF8? bytes with
    | none => refuse "stream did not contain valid UTF-8"
    | some text => ofText text

end FrameChain
