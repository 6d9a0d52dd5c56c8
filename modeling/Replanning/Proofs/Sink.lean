import Mathlib.Data.Nat.Notation
import Replanning.Sink

namespace Replanning

variable {σ : Type} [EventSink σ]

/-- The sink refuses no event of any sequence. -/
def Accepts (sink : σ) : Prop :=
  ∀ events, (offer events sink).1 = .ok ()

theorem offer_append (first rest : List Event) (sink : σ) (h : (offer first sink).1 = .ok ()) :
    offer (first ++ rest) sink = offer rest (offer first sink).2 := by
  induction first generalizing sink with
  | nil => rfl
  | cons e first ih =>
    rw [List.cons_append, offer, offer]
    rw [offer] at h
    split at h
    · exact ih _ h
    · cases h

/-- A sink goes on to accept what it is offered. -/
theorem accepts_offer (sink : σ) (h : Accepts sink) (events : List Event) :
    Accepts (offer events sink).2 := by
  intro more
  -- what comes later is the end of a longer sequence, which is accepted too
  rw [← offer_append events more sink (h events)]
  exact h (events ++ more)

/-- The sink behind the record calls of some events, whatever it answers. -/
def recordAll (events : List Event) (sink : σ) : σ :=
  events.foldl (fun sink e => (EventSink.record sink e).2) sink

/-- None of the events is refused when they are recorded one after the other. -/
def Takes : σ → List Event → Prop
  | _, [] => True
  | sink, e :: rest => (EventSink.record sink e).1 = .ok () ∧ Takes (EventSink.record sink e).2 rest

/-- Of some events the sink takes those before this one, which it refuses. -/
structure Refuses (sink : σ) (events before : List Event) (e : Event) (reason : String) : Prop where
  place : before ++ [e] <+: events
  taken : Takes sink before
  refused : (EventSink.record (recordAll before sink) e).1 = .error reason

/-- Events that are taken are all offered. -/
theorem offer_of_takes (events : List Event) (sink : σ) (h : Takes sink events) :
    offer events sink = (.ok (), recordAll events sink) := by
  induction events generalizing sink with
  | nil => rfl
  | cons e rest ih =>
    obtain ⟨haccepted, hrest⟩ := h
    rw [offer, show EventSink.record sink e = (.ok (), (EventSink.record sink e).2) from
      Prod.ext haccepted rfl]
    exact ih _ hrest

/-- The events up to the refused one are offered, and no others. -/
theorem offer_of_refuses (events before : List Event) (sink : σ) (e : Event) (reason : String)
    (h : Refuses sink events before e reason) :
    offer events sink = (.error (e, reason), recordAll (before ++ [e]) sink) := by
  obtain ⟨⟨rest, rfl⟩, htaken, hrefused⟩ := h
  have hbefore := offer_of_takes before sink htaken
  rw [List.append_assoc, offer_append before _ sink (by rw [hbefore]), hbefore, List.cons_append,
    offer, show EventSink.record (recordAll before sink) e =
      (.error reason, (EventSink.record (recordAll before sink) e).2) from Prod.ext hrefused rfl,
    recordAll, recordAll, List.foldl_append]
  rfl

/-- A sink takes all of some events, or there is a first one that it refuses. -/
theorem takes_or_refuses (events : List Event) (sink : σ) :
    Takes sink events ∨ ∃ before e reason, Refuses sink events before e reason := by
  induction events generalizing sink with
  | nil => exact Or.inl trivial
  | cons e rest ih =>
    cases hanswer : (EventSink.record sink e).1 with
    | error reason =>
      exact Or.inr ⟨[], e, reason, List.prefix_append [e] rest, trivial, hanswer⟩
    | ok _ =>
      rcases ih (EventSink.record sink e).2 with htaken | ⟨before, e', reason, h⟩
      · exact Or.inl ⟨hanswer, htaken⟩
      · exact Or.inr ⟨e :: before, e', reason, List.cons_prefix_cons.mpr ⟨rfl, h.place⟩,
          ⟨hanswer, h.taken⟩, h.refused⟩

/-- Events that can all be offered are taken. -/
theorem takes_of_offer (events : List Event) (sink : σ) (h : (offer events sink).1 = .ok ()) :
    Takes sink events := by
  rcases takes_or_refuses events sink with htaken | ⟨before, e, reason, hrefuses⟩
  · exact htaken
  · rw [offer_of_refuses events before sink e reason hrefuses] at h
    cases h

/-- A log takes every event, behind those that it has. -/
theorem offer_eventLog (events : List Event) (log : EventLog) :
    offer events log = (.ok (), ⟨log.events ++ events⟩) := by
  induction events generalizing log with
  | nil => rw [offer, List.append_nil]
  | cons e rest ih =>
    change offer rest (log.add e) = _
    rw [ih, EventLog.add, List.append_assoc]
    rfl

theorem accepts_eventLog (log : EventLog) : Accepts log := by
  intro events
  rw [offer_eventLog]

theorem toList_loop (data : ByteArray) (i : ℕ) (done : List UInt8) :
    ByteArray.toList.loop data i done = done.reverse ++ data.data.toList.drop i := by
  fun_induction ByteArray.toList.loop data i done with
  | case1 i done h ih =>
    have hi : i < data.data.toList.length := h
    have hbyte : data.get! i = data.data.toList[i] := getElem!_pos data.data i h
    rw [ih, List.drop_eq_getElem_cons hi, List.reverse_cons, List.append_assoc, hbyte]
    rfl
  | case2 i done h =>
    rw [List.drop_eq_nil_of_le (Nat.not_lt.mp h), List.append_nil]

theorem bytes_eq (s : String) : Writer.bytes s = s.toByteArray.data.toList :=
  toList_loop s.toByteArray 0 []

theorem bytes_empty : Writer.bytes "" = [] :=
  bytes_eq ""

theorem bytes_inj (s t : String) : Writer.bytes s = Writer.bytes t ↔ s = t := by
  rw [bytes_eq, bytes_eq, Array.toList_inj, ← ByteArray.ext_iff, String.toByteArray_inj]

theorem bytes_append (s t : String) : Writer.bytes (s ++ t) = Writer.bytes s ++ Writer.bytes t := by
  rw [bytes_eq, bytes_eq, bytes_eq, String.toByteArray_append, ByteArray.data_append,
    Array.toList_append]

namespace LineSink

/-- The texts of some events, each on a line of its own. -/
def text (events : List Event) : List Char :=
  events.flatMap fun e => e.toJson.compactText ++ ['\n']

/-- A file of lines without a limit takes the text of every event. -/
theorem offer_eq (events : List Event) (written : List UInt8) :
    offer events (⟨⟨written, none⟩⟩ : LineSink) =
      (.ok (), ⟨⟨written ++ Writer.bytes (String.ofList (text events)), none⟩⟩) := by
  induction events generalizing written with
  | nil =>
    have htext : String.ofList (text []) = "" := rfl
    rw [htext, bytes_empty, List.append_nil]
    rfl
  | cons e rest ih =>
    have hline : line e = String.ofList (e.toJson.compactText ++ ['\n']) := by
      rw [String.ofList_append]
      rfl
    have htext : text (e :: rest) = (e.toJson.compactText ++ ['\n']) ++ text rest := rfl
    change offer rest (⟨⟨written ++ Writer.bytes (line e), none⟩⟩ : LineSink) = _
    rw [ih, htext, String.ofList_append, bytes_append, ← hline, List.append_assoc]

end LineSink

end Replanning
