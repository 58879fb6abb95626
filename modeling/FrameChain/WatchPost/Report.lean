import FrameChain.Decimal.Layout
import FrameChain.Document.Config
import FrameChain.Document.Event
import FrameChain.Document.Snapshot
import FrameChain.Json.Printer
import FrameChain.WatchPost.Scene

set_option autoImplicit false

/-!
# Running the watch post

The command line: the settings it gives, the run, and what is printed. Events and documents go to the
output, headings and the summary to the log.
-/
namespace FrameChain.WatchPost

/-- The word after the first occurrence of a flag. -/
def argument? (flag : String) : List String → Option String
  | first :: second :: rest =>
    if first = flag then some second else argument? flag (second :: rest)
  | _ => none

/-- A number of at most 64 bits: digits, with a plus sign in front or not. -/
def parseWord? (s : String) : Option UInt64 :=
  let (digits, rest) := Json.Reader.digits <|
    match s.toList with
    | '+' :: cs => cs
    | cs => cs
  if digits.isEmpty || !rest.isEmpty then none
  else
    let n := Json.Numeral.digitsValue digits
    if n < UInt64.size then some (UInt64.ofNat n) else none

/-- A missing or unreadable argument leaves the setting as it is. -/
def wordArgument (args : List String) (flag : String) (preset : UInt64) : UInt64 :=
  ((argument? flag args).bind parseWord?).getD preset

structure Output where
  code : UInt32
  output : List String
  log : List String

/-- The events of a run, its frames, and what ended it early. -/
structure Watch where
  events : List Event
  frames : Nat
  halt : Option Halt

def fuel : Nat := 1000000

/-- Frames until the scene is idle, at most `n` of them. -/
def watch (run : Engine.Run Part Tally) : Nat → Watch × Engine.Run Part Tally
  | 0 => (⟨[], 0, none⟩, run)
  | n + 1 =>
    match (Engine.tick (Component.behaviour host fuel) fuel).run run with
    | (.error halt, run) => (⟨[], 0, some halt⟩, run)
    | (.ok events, run) =>
      if run.engine.scene.isIdle then (⟨events, 1, none⟩, run)
      else
        let (later, run) := watch run n
        ({ later with events := events ++ later.events, frames := later.frames + 1 }, run)

def kinds : List String :=
  ["component_attached", "component_detached", "component_finished", "component_removed",
    "entity_added", "entity_removed", "message_sent"]

/-- How many events there were of each kind that occurred. -/
def counts (events : List Event) : List (String × Nat) :=
  (kinds.map fun kind => (kind, (events.filter fun event => event.kind == kind).length)).filter
    fun entry => 0 < entry.2

def speedName : Speed → String
  | .normal => "Normal"
  | .half => "Half"
  | .double => "Double"

def heading (config : Config) : List String :=
  ["chain-runner",
    "  seed:       " ++ toString config.seed.toNat,
    "  frames:     " ++ toString config.frames.toNat,
    "  frame_rate: " ++ Layout.message.text config.frameRate,
    "  speed:      " ++ speedName config.speed,
    ""]

def padded (width : Nat) (s : String) : String :=
  s ++ String.ofList (List.replicate (width - s.length) ' ')

def summaryLines (w : Watch) (run : Engine.Run Part Tally) : List String :=
  ["", "═══ RUN SUMMARY ═══════════════════════════",
    "  frames run:          " ++ toString w.frames,
    "  simulated seconds:   " ++ fixedText 2 run.engine.clock.absolute,
    "  confirmed sightings: " ++ toString run.world.sightings,
    "  entities left:       " ++ toString run.engine.scene.entities.length,
    "  idle:                " ++ (if run.engine.scene.isIdle then "true" else "false"),
    "  events:"] ++
  (counts w.events).map (fun (kind, n) => "    " ++ padded 20 kind ++ " " ++ toString n) ++
  ["═══════════════════════════════════════════"]

def summary (w : Watch) (run : Engine.Run Part Tally) : Json :=
  .object [("frames", .nat w.frames), ("seconds", .finite run.engine.clock.absolute),
    ("sightings", .nat run.world.sightings), ("entities", .nat run.engine.scene.entities.length),
    ("idle", .bool run.engine.scene.isIdle),
    ("events", .object ((counts w.events).map fun (kind, n) => (kind, .nat n)))]

def failureLine (text : String) : String := "Error: " ++ text

def haltText : Halt → String
  | .failure f => f.message
  | .crash (.broken condition) => condition.message
  | .crash (.dangling _) => "dangling command"
  | .crash .exhausted => "out of fuel"

def runWith (config : Config) (quiet inspect jsonSummary : Bool) : Output :=
  let (w, run) := watch (start config) config.frames.toNat
  let events := if quiet then [] else w.events.map fun event => event.toJson.compact
  match w.halt with
  | some halt => ⟨1, events, heading config ++ [failureLine (haltText halt)]⟩
  | none =>
    let inspected :=
      if inspect then run.engine.scene.snapshot.toJson.indented.splitOn "\n" else []
    let summed := if jsonSummary then [(summary w run).compact] else []
    ⟨0, events ++ inspected ++ summed, heading config ++ summaryLines w run⟩

/-- The file with the settings, if one is named. -/
def configPath? (args : List String) : Option String := argument? "--config" args

/-- `content` is what the file with the settings held, if one is named. -/
def run (args : List String) (content : FileContent) : Output :=
  let loaded : Except Failure Config :=
    match configPath? args with
    | none => .ok {}
    | some path => Config.ofFile path content
  match loaded with
  | .error f => ⟨1, [], [failureLine f.message]⟩
  | .ok config =>
    let config :=
      { config with
        seed := wordArgument args "--seed" config.seed
        frames := wordArgument args "--frames" config.frames }
    runWith config (args.contains "--quiet") (args.contains "--inspect")
      (args.contains "--json-summary")

end FrameChain.WatchPost
