/-
# Observers

An observer is handed the events of a call.  It may ignore them, keep them, or write each one to the
log.  What it does has no influence on the call: events are handed over when the result is there
already, and an observer hands nothing back.

A call is described by its report, which holds the result, the events that the observer kept and the
records that were written, the observer's own ones behind those of the call.  Two reports of one
call by different observers differ in the last two parts alone.

* `length_records_logging`: a logging observer writes one record for each event.
-/
import DecimalCalc.Expression.Event
import DecimalCalc.Log

namespace DecimalCalc

/-- What is done with the events of a call.  The choice is made once, when a calculator is
created. -/
inductive Observer where
  /-- Nothing. -/
  | silent
  /-- They are kept. -/
  | recording
  /-- They are written to the log. -/
  | logging
deriving DecidableEq, Repr

/-- The log record of an event; a division that was cut off is a warning.  The event itself is in
the message, and there are no fields. -/
def Event.record (event : Event) : LogRecord :=
  match event with
  | .divisionTruncated .. => ⟨.warn, "Division truncated: " ++ event.inspect, []⟩
  | _ => ⟨.debug, "Evaluation event: " ++ event.inspect, []⟩

namespace Observer

/-- The events that the observer keeps: all of them in their order, or none. -/
def kept : Observer → List Event → List Event
  | .recording, events => events
  | _, _ => []

/-- The records that the observer writes, one for each event and in the same order. -/
def records : Observer → List Event → List LogRecord
  | .logging, events => events.map Event.record
  | _, _ => []

/-- No event is dropped and none is reported twice, so a log can be counted against the events. -/
@[simp] theorem length_records_logging (events : List Event) :
    (records .logging events).length = events.length := by
  simp [records]

end Observer

/-- The outcome of a call, with what the observer kept and what was written to the log. -/
structure Report (α : Type) where
  result : α
  events : List Event
  log : List LogRecord
deriving Repr

namespace Report

/-- A call that tells nothing and writes nothing, as one whose operands could not be read. -/
def quiet {α : Type} (result : α) : Report α := ⟨result, [], []⟩

/-- A call that writes some records and then hands events to an observer, whose records follow
behind. -/
def deliver {α : Type} (observer : Observer) (result : α) (log : List LogRecord)
    (events : List Event) : Report α :=
  ⟨result, observer.kept events, log ++ observer.records events⟩

/-- The same call with another outcome.  What was told and written stays as it was. -/
def map {α β : Type} (f : α → β) (r : Report α) : Report β := ⟨f r.result, r.events, r.log⟩

end Report
end DecimalCalc
