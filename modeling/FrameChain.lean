import FrameChain.Main
import FrameChain.Scenario.Session
import FrameChain.Proofs.History
import FrameChain.Proofs.Journal
import FrameChain.Proofs.Moment
import FrameChain.Proofs.Scene.Change
import FrameChain.Proofs.Scene.Registry
import FrameChain.Proofs.Scene.Bus
import FrameChain.Proofs.Coherence
import FrameChain.Proofs.Delivery
import FrameChain.Proofs.Admission
import FrameChain.Proofs.Removal
import FrameChain.Proofs.Chronicle
import FrameChain.Proofs.Lifecycle
import FrameChain.Proofs.Retirement
import FrameChain.Proofs.Discipline
import FrameChain.Proofs.Scene.Stages
import FrameChain.Proofs.Structured.Errand
import FrameChain.Proofs.Structured.Rounds
import FrameChain.Proofs.Structured.Program
import FrameChain.Proofs.Structured.Interpreter
import FrameChain.Proofs.Structured.Simulation
import FrameChain.Proofs.Structured.Refinement
import FrameChain.Proofs.Structured.Image
import FrameChain.Proofs.Moment.Waiting
import FrameChain.Proofs.Chain.Arena
import FrameChain.Proofs.Chain.Branches
import FrameChain.Proofs.Chain.Lived
import FrameChain.Proofs.Resolution
import FrameChain.Proofs.Chain.Lockstep
import FrameChain.Proofs.Chain.Twins
import FrameChain.Proofs.Rebuilding
import FrameChain.Proofs.Editing
import FrameChain.Proofs.MessageWaits
import FrameChain.Proofs.Moment.Settling
import FrameChain.Proofs.Settlement
import FrameChain.Proofs.ScopeFaults
import FrameChain.Proofs.Chain.Scratch
import FrameChain.Proofs.Chain.Neat
import FrameChain.Proofs.WaitState
import FrameChain.Proofs.FrameWaits
import FrameChain.Proofs.OneShot
import FrameChain.Proofs.ComponentSets
import FrameChain.Proofs.Sampling
import FrameChain.Proofs.Cancellation
import FrameChain.Proofs.Structured.Halting
import FrameChain.Proofs.Structured.Standing
import FrameChain.Proofs.Halting
import FrameChain.Proofs.Moment.Attaching
import FrameChain.Proofs.Attachment
import FrameChain.Proofs.Anchoring
import FrameChain.Proofs.Streams
import FrameChain.Proofs.Documents.Formats
import FrameChain.Proofs.Idling
import FrameChain.Proofs.Phases
