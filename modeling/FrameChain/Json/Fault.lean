set_option autoImplicit false

/-!
# Reading faults

Why a text is not the value asked for. A reader goes through the text once, so of several faults the
one met first is reported.
-/
namespace FrameChain

inductive Json.Fault where
  /-- The text breaks the grammar, goes on after the value, or holds a number out of range. -/
  | malformed
  /-- The text is well formed but has another shape, type or range. -/
  | mismatched
  /-- The text ends before the value does. -/
  | truncated
deriving DecidableEq, Repr, Inhabited

def Json.Fault.text : Json.Fault → String
  | malformed => "malformed text"
  | mismatched => "unexpected value"
  | truncated => "unexpected end of text"

end FrameChain
