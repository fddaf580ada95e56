import Wavefront.Schedule

set_option autoImplicit false

/-!
# Traces

A run is told as a list of events: each wave with what came of its members, and at the end the
fixed point. Only a buffer keeps the events it is sent.
-/
namespace Wavefront

/-- Waves are numbered from 1. -/
inductive Event
  | waveStarted (wave ready blocked : Nat)
  | computed (wave : Nat) (name : Name) (value : Value)
  | discarded (wave : Nat) (name : Name) (reason : DiscardReason)
  | fixedPoint (waves stored unresolved : Nat)
deriving DecidableEq

def Event.text : Event → String
  | waveStarted wave ready blocked => s!"wave {wave}: {ready} ready, {blocked} blocked"
  | computed wave name value => s!"wave {wave}: {name.text} = {value.text}"
  | discarded wave name reason => s!"wave {wave}: discarded `{name.text}` ({reason.text})"
  | fixedPoint waves stored unresolved =>
    s!"fixed point after {waves} wave(s): {stored} computed, {unresolved} unresolved"

def Attempt.event? (wave : Nat) (a : Attempt) : Option Event :=
  match a.outcome with
  | .stored v => some (.computed wave a.ready.target v)
  | .alreadyStored => none
  | .discarded reason => some (.discarded wave a.ready.target reason)

def Wave.events (number : Nat) (w : Wave) : List Event :=
  .waveStarted number w.attempts.length w.blocked :: w.attempts.filterMap (Attempt.event? number)

/-- The events of waves that are numbered from `k` on. -/
def eventsFrom (k : Nat) : List Wave → List Event
  | [] => []
  | w :: rest => w.events k ++ eventsFrom (k + 1) rest

def Run.events (r : Run) : List Event :=
  eventsFrom 1 r.waves ++
    [.fixedPoint r.report.waves r.report.computed r.report.unresolved.length]

inductive Sink
  | log
  | buffer (events : List Event)
  | silent
deriving DecidableEq

namespace Sink

def events : Sink → List Event
  | buffer events => events
  | log | silent => []

def reportAll (s : Sink) (new : List Event) : Sink :=
  match s with
  | buffer events => buffer (events ++ new)
  | s => s

def report (s : Sink) (e : Event) : Sink := s.reportAll [e]

def clear : Sink → Sink
  | buffer _ => buffer []
  | s => s

def render (s : Sink) : String :=
  String.join (s.events.map fun e => e.text ++ "\n")

end Sink

end Wavefront
