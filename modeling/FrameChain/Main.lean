import FrameChain.WatchPost.Report

set_option autoImplicit false

/-! # The command line of the watch post -/
namespace FrameChain

/-- Why the system could not read a file, with the system's number for it, which comes with either
sign. -/
def systemReason : IO.Error → String
  | .noFileOrDirectory _ code details
  | .inappropriateType _ code details
  | .permissionDenied _ code details
  | .invalidArgument _ code details =>
    details.capitalize ++ " (os error " ++ toString (min code (0 - code)) ++ ")"
  | e => toString e

def readSettings (args : List String) : IO FileContent := do
  match WatchPost.configPath? args with
  | none => return .ok ByteArray.empty
  | some path =>
    try
      return .ok (← IO.FS.readBinFile path)
    catch e => return .error (systemReason e)

end FrameChain

def main (args : List String) : IO UInt32 := do
  let result := FrameChain.WatchPost.run args (← FrameChain.readSettings args)
  result.log.forM fun line => IO.eprintln line
  result.output.forM fun line => IO.println line
  return result.code
