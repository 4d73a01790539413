import QueryTelemetry.Assoc
import QueryTelemetry.Number.Binary64

/-!
# Timings and log

A clock gives its readings one by one and then stands at zero. The durations of a section add
up under its name. Every part of the pipeline logs to a channel of its own. A channel is set up
when it is first opened and is found again under its name afterwards, with one sink however often
it is opened.
-/

set_option autoImplicit false

namespace QueryTelemetry

abbrev Clock := List Binary64

def Clock.tick : Clock → Binary64 × Clock
  | [] => (.zero false, [])
  | t :: r => (t, r)

abbrev Timings := Assoc String Binary64

namespace Timings

def record (m : Timings) (name : String) (duration : Binary64) : Timings :=
  m.update name fun old => (old.getD (.zero false)).add duration

def measure (m : Timings) (name : String) (clock : Clock) : Timings × Clock :=
  let (start, clock) := clock.tick
  let (stop, clock) := clock.tick
  (m.record name (stop.sub start), clock)

def total (m : Timings) (name : String) : Binary64 := (m.get? name).getD (.zero false)

end Timings

inductive Level where
  | info | warning | error
  deriving DecidableEq

def Level.name : Level → String
  | .info => "INFO"
  | .warning => "WARNING"
  | .error => "ERROR"

def Level.rank : Level → Nat
  | .info => 20
  | .warning => 30
  | .error => 40

def channelName (part : String) : String := "perfstats." ++ part

structure LogLine where
  level : Level
  part : String
  message : String

def LogLine.text (l : LogLine) : String :=
  l.level.name ++ " " ++ channelName l.part ++ ": " ++ l.message

structure Sink where
  target : String
  level : Level
  layout : String
  deriving DecidableEq

structure Channel where
  name : String
  level : Level
  propagates : Bool
  sinks : List Sink
  deriving DecidableEq

abbrev Channels := Assoc String Channel

def Channel.fresh (part : String) : Channel where
  name := channelName part
  level := .info
  propagates := false
  sinks := [⟨"StreamHandler", .info, "%(asctime)s [%(levelname)s] %(name)s: %(message)s"⟩]

def Channels.connect (m : Channels) (part : String) : Channel × Channels :=
  match m.get? (channelName part) with
  | some c => (c, m)
  | none => (.fresh part, m.put (channelName part) (.fresh part))

theorem Channels.connect_again (m : Channels) (part : String) :
    (m.connect part).2.connect part = m.connect part := by
  cases h : m.get? (channelName part) with
  | some c => simp [connect, h]
  | none => simp [connect, h, Assoc.get_put]

end QueryTelemetry
