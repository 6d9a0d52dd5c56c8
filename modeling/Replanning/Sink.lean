import Replanning.Encoding.Event
import Replanning.Writer

namespace Replanning

/-- A destination of events. It answers each one, with the reason if it refuses it. -/
class EventSink (σ : Type) where
  record : σ → Event → Except String Unit × σ

structure NullSink where
deriving DecidableEq, Repr

instance : EventSink NullSink where
  record sink _ := (.ok (), sink)

/-- All events in memory. -/
structure EventLog where
  events : List Event

namespace EventLog

def empty : EventLog :=
  ⟨[]⟩

def add (log : EventLog) (e : Event) : EventLog :=
  ⟨log.events ++ [e]⟩

def atIteration (log : EventLog) (i : UInt64) : List Event :=
  log.events.filter (·.iteration = i)

def ofKind (log : EventLog) (kind : String) : List Event :=
  log.events.filter (·.kind = kind)

def adaptations (log : EventLog) : List Event :=
  log.events.filter (·.isAdaptation)

end EventLog

instance : EventSink EventLog where
  record log e := (.ok (), log.add e)

/-- A table of tab-separated cells. The header goes before the first row. -/
structure TableSink where
  writer : Writer
  headerWritten : Bool

namespace TableSink

def new (writer : Writer) : TableSink :=
  ⟨writer, false⟩

def columns : List String :=
  ["iteration", "mean_gap", "trust_region", "replications", "within_variance", "between_variance",
   "df_t_statistic"]

def line (cells : List String) : String :=
  "\t".intercalate cells ++ "\n"

/-- The cell of a value, empty if it is absent. -/
def cell (x : Option Float) : String :=
  (x.map plainText).getD ""

/-- The cells of an event that has a row. -/
def cells? : Event → Option (List String)
  | .iterationRecord iteration meanGap trustRegion replications within between t =>
    some [Nat.repr iteration.toNat, plainText meanGap, Nat.repr trustRegion.toNat,
      Nat.repr replications.toNat, cell within, cell between, cell t]
  | _ => none

/-- Writes the header, unless that has been done. -/
def writeHeader (t : TableSink) : Except String Unit × TableSink :=
  if t.headerWritten then (.ok (), t)
  else
    match t.writer.write (Writer.bytes (line columns)) with
    | (.ok (), writer) => (.ok (), ⟨writer, true⟩)
    | (.error reason, writer) => (.error reason, ⟨writer, false⟩)

def writeRow (t : TableSink) (cells : List String) : Except String Unit × TableSink :=
  let (outcome, writer) := t.writer.write (Writer.bytes (line cells))
  (outcome, { t with writer := writer })

end TableSink

instance : EventSink TableSink where
  record t e :=
    match TableSink.cells? e with
    | none => (.ok (), t)
    | some cells =>
      match t.writeHeader with
      | (.error reason, t) => (.error reason, t)
      | (.ok (), t) => t.writeRow cells

structure LineSink where
  writer : Writer

def LineSink.line (e : Event) : String :=
  e.toJson.compact ++ "\n"

instance : EventSink LineSink where
  record l e :=
    let (outcome, writer) := l.writer.write (Writer.bytes (LineSink.line e))
    (outcome, ⟨writer⟩)

/-- Offers events to a sink until it refuses one, which is named with the reason. -/
def offer {σ : Type} [EventSink σ] : List Event → σ → Except (Event × String) Unit × σ
  | [], sink => (.ok (), sink)
  | e :: rest, sink =>
    match EventSink.record sink e with
    | (.ok (), sink) => offer rest sink
    | (.error reason, sink) => (.error (e, reason), sink)

end Replanning
