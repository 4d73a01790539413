import QueryTelemetry.Decode
import QueryTelemetry.Handler

/-!
# Replaying a stream

Events are decoded one by one and delivered to every handler. A malformed event is skipped and
accounted for under its position in the stream; a decoding that fails in any other way ends
the replay.
-/

set_option autoImplicit false

namespace QueryTelemetry

structure Summary where
  queries : Int
  reads : Int
  rows : Int
  properties : Int
  skipped : Int
  duration : Binary64
  errors : List String

namespace Summary

def empty : Summary := ⟨0, 0, 0, 0, 0, .zero false, []⟩

def delivered (s : Summary) : Int := s.queries + s.reads + s.rows + s.properties

def count (s : Summary) : Record → Summary
  | .completion _ => { s with queries := s.queries + 1 }
  | .reads _ => { s with reads := s.reads + 1 }
  | .rows _ => { s with rows := s.rows + 1 }
  | .property _ => { s with properties := s.properties + 1 }

def skip (s : Summary) (position : Nat) (message : String) : Summary :=
  { s with
    skipped := s.skipped + 1
    errors := s.errors ++ ["event " ++ toString position ++ ": " ++ message] }

/-- Counters and errors add up; of the durations the longer one stays. -/
def absorb (s t : Summary) : Summary where
  queries := s.queries + t.queries
  reads := s.reads + t.reads
  rows := s.rows + t.rows
  properties := s.properties + t.properties
  skipped := s.skipped + t.skipped
  duration := s.duration.larger t.duration
  errors := s.errors ++ t.errors

def members (s : Summary) : List (String × Json) := [
  ("queries", .int s.queries),
  ("reads", .int s.reads),
  ("rows", .int s.rows),
  ("properties", .int s.properties),
  ("skipped", .int s.skipped),
  ("delivered", .int s.delivered),
  ("duration_seconds", .float s.duration)]

def message (s : Summary) : String :=
  "Replayed " ++ toString s.delivered ++ " events: queries=" ++ toString s.queries ++
    " reads=" ++ toString s.reads ++ " rows=" ++ toString s.rows ++
    " properties=" ++ toString s.properties ++ " skipped=" ++ toString s.skipped ++
    " in " ++ s.duration.fixed 2 ++ "s"

end Summary

structure Replay where
  handlers : List Handler
  summary : Summary

namespace Replay

def start (handlers : List Handler) : Replay := ⟨handlers, .empty⟩

def deliver (p : Replay) (r : Record) : Except Failure Replay :=
  match p.handlers.findSome? (·.fault? r.callback) with
  | some f => .error f
  | none => .ok ⟨p.handlers.map (·.step r), p.summary.count r⟩

def step (p : Replay) (position : Nat) (e : Event) : Except Failure Replay :=
  match e.decode with
  | .ok r => p.deliver r
  | .error (.malformed _ message) => .ok { p with summary := p.summary.skip position message }
  | .error .unwritable => .error .unwritable

def runFrom (p : Replay) : Nat → List Event → Except Failure Replay
  | _, [] => .ok p
  | position, e :: es => (p.step position e).bind fun p => p.runFrom (position + 1) es

def run (handlers : List Handler) (es : List Event) : Except Failure Replay :=
  (start handlers).runFrom 1 es

end Replay

def replay (es : List Event) (handlers : List Handler) : Work Replay := do
  let start ← Work.tick
  let p ← Work.ofExcept (Replay.run handlers es)
  let stop ← Work.tick
  let p := { p with summary := { p.summary with duration := stop.sub start } }
  Work.logLine .info "ingest.dispatcher" p.summary.message
  return p

def replayShardsFrom (p : Replay) : List (List Event) → Work Replay
  | [] => return p
  | es :: shards => do
    let q ← replay es p.handlers
    replayShardsFrom ⟨q.handlers, p.summary.absorb q.summary⟩ shards

def shardsMessage (shards : Nat) (s : Summary) : String :=
  "Replayed " ++ toString shards ++ " shards (" ++ toString s.delivered ++ " events)"

/-- A pool has at least one worker; without a number it chooses one. -/
def enoughWorkers : Option Int → Bool
  | some n => 0 < n
  | none => true

/-- One after the other, which is one of the ways in which the shards may interleave. -/
def replayShards (workers : Option Int) (shards : List (List Event)) (handlers : List Handler) :
    Work Replay := do
  if !enoughWorkers workers then throw .noWorkers
  let p ← replayShardsFrom (.start (handlers.map .guarded)) shards
  Work.logLine .info "ingest.dispatcher" (shardsMessage shards.length p.summary)
  return p

end QueryTelemetry
