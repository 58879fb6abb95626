import FrameChain.Failure

set_option autoImplicit false

/-!
# Random streams

A stream is a permuted congruential generator: a multiplicative congruence on 128 bits, of which each
step shows 64 bits, folded and rotated by the top six. Streams of one master seed differ by their
number, which is spread over the word before it is mixed in.
-/
namespace FrameChain

structure RandomStream where
  name : String
  state : BitVec 128

namespace RandomStream

def multiplier : BitVec 128 := 0x2360ed051fc65da44385df649fccf645

/-- The seed of stream `number`: different numbers have different seeds. -/
def seed (master number : UInt64) : UInt64 := master ^^^ (number * 0x9e3779b97f4a7c15)

def rotateRight32 (x r : UInt32) : UInt32 := (x >>> r) ||| (x <<< (32 - r))

def rotateRight64 (x r : UInt64) : UInt64 := (x >>> r) ||| (x <<< (64 - r))

/-- One word of the initial state, from a smaller generator that stretches the seed. -/
def seedWord (s : UInt64) : UInt32 :=
  rotateRight32 (((s >>> 18) ^^^ s) >>> 27).toUInt32 (s >>> 59).toUInt32

def seedStep (s : UInt64) : UInt64 := s * 6364136223846793005 + 11634580027462260723

/-- Four words fill the state, the least significant first; an odd state has the full period. -/
def initialState (s : UInt64) : BitVec 128 :=
  let s₀ := seedStep s
  let s₁ := seedStep s₀
  let s₂ := seedStep s₁
  let s₃ := seedStep s₂
  let word (s : UInt64) : BitVec 128 := (seedWord s).toBitVec.setWidth 128
  (word s₀ ||| word s₁ <<< 32 ||| word s₂ <<< 64 ||| word s₃ <<< 96) ||| 1

def new (master number : UInt64) : RandomStream :=
  { name := "stream-" ++ toString number, state := initialState (seed master number) }

def withName (name : String) (stream : RandomStream) : RandomStream := { stream with name }

def ofEntity (master : UInt64) (entity : EntityId) : RandomStream :=
  (new master (UInt64.ofNat entity.val)).withName entity.text

def next (stream : RandomStream) : UInt64 × RandomStream :=
  let state := stream.state * multiplier
  let high : UInt64 := ⟨(state >>> 64).setWidth 64⟩
  let low : UInt64 := ⟨state.setWidth 64⟩
  let turn : UInt64 := ⟨(state >>> 122).setWidth 64⟩
  (rotateRight64 (high ^^^ low) turn, { stream with state })

/-- In `[0, 1)`, a multiple of `2⁻⁵³`. -/
def unit (stream : RandomStream) : Float × RandomStream :=
  let (bits, stream) := stream.next
  ((bits >>> 11).toFloat * (1.0 / 9007199254740992.0), stream)

def range (low high : Float) (stream : RandomStream) : Float × RandomStream :=
  let (x, stream) := stream.unit
  (low + (high - low) * x, stream)

/-- The bound must be positive. -/
def below (n : UInt64) (stream : RandomStream) : Except Precondition UInt64 × RandomStream :=
  if n = 0 then (.error .positiveBound, stream)
  else
    let (bits, stream) := stream.next
    (.ok (bits % n), stream)

def chance (p : Float) (stream : RandomStream) : Bool × RandomStream :=
  let (x, stream) := stream.unit
  (x < p, stream)

end RandomStream
end FrameChain
