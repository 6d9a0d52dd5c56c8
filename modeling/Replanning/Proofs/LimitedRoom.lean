import Replanning.Proofs.Table

/-! A writer keeps the first bytes of what it is offered, however that is cut into writes, so a sink
that goes on behind a refusal adds nothing out of place. -/
namespace Replanning

namespace Writer

/-- A writer with room for `b` bytes, behind the offer of some data. -/
def limited (b : ℕ) (data : List UInt8) : Writer :=
  ⟨data.take b, some (b - data.length)⟩

theorem limited_nil (b : ℕ) : limited b [] = .new (some b) := by
  rw [limited, List.take_nil]
  rfl

/-- The offer may be made in two parts, of which the second goes with a refusal of the first. -/
theorem write_append (w : Writer) (data more : List UInt8) :
    w.write (data ++ more) =
      match w.write data with
      | (.ok (), w) => w.write more
      | (.error reason, w) => (.error reason, w) := by
  have hlength : (data ++ more).length = data.length + more.length := List.length_append
  cases w with
  | mk written room =>
    cases room with
    | none => simp only [write, List.append_assoc]
    | some room =>
      -- the first part leaves room for the second, or it is cut itself
      by_cases hroom : data.length ≤ room
      · have htake : (data ++ more).take room = data ++ more.take (room - data.length) := by
          rw [List.take_append, List.take_of_length_le hroom]
        have hfits : (data ++ more).length ≤ room ↔ more.length ≤ room - data.length := by omega
        have hleft : room - (data ++ more).length = room - data.length - more.length := by omega
        simp only [write, if_pos hroom, hfits, htake, hleft, List.take_of_length_le hroom,
          List.append_assoc]
      · have htake : (data ++ more).take room = data.take room :=
          List.take_append_of_le_length (by omega)
        have hover : ¬ (data ++ more).length ≤ room := by omega
        have hleft : room - (data ++ more).length = room - data.length := by omega
        simp only [write, if_neg hroom, if_neg hover, htake, hleft]

/-- A write is refused if there are bytes in it and all offers together are too long. -/
theorem write_limited (b : ℕ) (data more : List UInt8) :
    (limited b data).write more =
      (if more ≠ [] ∧ b < (data ++ more).length then .error full else .ok (),
        limited b (data ++ more)) := by
  have hlength : (data ++ more).length = data.length + more.length := List.length_append
  have hfits : more.length ≤ b - data.length ↔ ¬ (more ≠ [] ∧ b < (data ++ more).length) := by
    rw [← List.length_pos_iff]
    omega
  have hleft : b - data.length - more.length = b - (data ++ more).length := by omega
  simp only [write, limited, hfits, ite_not, hleft, List.take_append]

theorem isOk_write_limited (b : ℕ) (data more : List UInt8) (h : more ≠ []) :
    ((limited b data).write more).1.isOk = decide ((data ++ more).length ≤ b) := by
  rw [write_limited]
  split_ifs with hover
  · exact (decide_eq_false (Nat.not_le.mpr hover.2)).symm
  · exact (decide_eq_true (Nat.not_lt.mp fun hlt => hover ⟨h, hlt⟩)).symm

/-- Behind the limit nothing is added. -/
theorem limited_append (b : ℕ) (data more : List UInt8) (h : b ≤ data.length) :
    limited b (data ++ more) = limited b data := by
  have hleft : b - (data ++ more).length = b - data.length := by
    rw [List.length_append]
    omega
  rw [limited, limited, List.take_append_of_le_length h, hleft]

theorem write_of_full (b : ℕ) (data more : List UInt8) (h : b ≤ data.length) (hmore : more ≠ []) :
    (limited b data).write more = (.error full, limited b data) := by
  have hover : b < (data ++ more).length := by
    rw [List.length_append]
    have hpos := List.length_pos_iff.mpr hmore
    omega
  rw [write_limited, if_pos ⟨hmore, hover⟩, limited_append b data more h]

theorem write_nil (w : Writer) : w.write [] = (.ok (), w) := by
  cases w with
  | mk written room => cases room <;> simp [write]

/-- Writes some parts one after the other, until one is refused. -/
def writeParts : List (List UInt8) → Writer → Except String Unit × Writer
  | [], w => (.ok (), w)
  | part :: rest, w =>
    match w.write part with
    | (.ok (), w) => writeParts rest w
    | (.error reason, w) => (.error reason, w)

/-- However data is cut into parts, they are as good as a single write. -/
theorem writeParts_eq (parts : List (List UInt8)) (w : Writer) :
    writeParts parts w = w.write parts.flatten := by
  induction parts generalizing w with
  | nil => exact w.write_nil.symm
  | cons part rest ih =>
    rw [writeParts, List.flatten_cons, write_append]
    split
    · exact ih _
    · rfl

end Writer

/-- Events are recorded in a sink whose writer may run out of room. With room for everything the sink
takes them all, and `output` is what it writes. With room for `b` bytes it writes the first `b` of
these, and it refuses exactly those events that add to the output and bring it beyond the limit. -/
structure CutsOff {σ : Type} [EventSink σ] (sink : Writer → σ) (writer : σ → Writer)
    (output : List Event → List UInt8) : Prop where
  unlimited : ∀ events, Takes (sink (.new none)) events ∧
    (writer (recordAll events (sink (.new none)))).written = output events
  kept : ∀ b events,
    (writer (recordAll events (sink (.new (some b))))).written = (output events).take b
  answered : ∀ b before e, (EventSink.record (recordAll before (sink (.new (some b)))) e).1 =
    if output (before ++ [e]) ≠ output before ∧ b < (output (before ++ [e])).length then
      .error Writer.full
    else .ok ()

/-- A sink that offers its writer what each event adds only cuts off. -/
theorem CutsOff.of_steps {σ : Type} [EventSink σ] {sink : Writer → σ} {writer : σ → Writer}
    {output : List Event → List UInt8} (added : List Event → Event → List UInt8)
    (behind : ℕ → List Event → σ)
    (hunlimited : ∀ events, Takes (sink (.new none)) events ∧
      (writer (recordAll events (sink (.new none)))).written = output events)
    (houtput : ∀ before e, output (before ++ [e]) = output before ++ added before e)
    (hstart : ∀ b, behind b [] = sink (.new (some b)))
    (hwriter : ∀ b events, writer (behind b events) = .limited b (output events))
    (hstep : ∀ b before e, EventSink.record (behind b before) e =
      (((Writer.limited b (output before)).write (added before e)).1, behind b (before ++ [e]))) :
    CutsOff sink writer output := by
  -- the last event is recorded behind all others, whether they have been refused or not
  have hrun (b : ℕ) (events : List Event) :
      recordAll events (sink (.new (some b))) = behind b events := by
    induction events using List.reverseRecOn with
    | nil => exact (hstart b).symm
    | append_singleton before e ih =>
      rw [recordAll, List.foldl_concat, ← recordAll, ih, hstep]
  refine ⟨hunlimited, fun b events => ?_, fun b before e => ?_⟩
  · rw [hrun, hwriter, Writer.limited]
  · have hadds : output (before ++ [e]) ≠ output before ↔ added before e ≠ [] := by
      rw [houtput, ne_eq, List.append_right_eq_self]
    rw [hrun, hstep, Writer.write_limited, ← houtput]
    simp only [hadds]

namespace LineSink

/-- A file of lines offers its writer the line of every event. -/
theorem cutsOff : CutsOff mk writer fun events => Writer.bytes (String.ofList (text events)) := by
  have hadds (before : List Event) (e : Event) :
      Writer.bytes (String.ofList (text (before ++ [e]))) =
        Writer.bytes (String.ofList (text before)) ++ Writer.bytes (line e) := by
    have hline : String.ofList (text [e]) = line e := by
      rw [text, List.flatMap_singleton, String.ofList_append]
      rfl
    rw [text, List.flatMap_append, ← text, ← text, String.ofList_append, bytes_append, hline]
  apply CutsOff.of_steps (fun _ e => Writer.bytes (line e))
    (fun b events => ⟨.limited b (Writer.bytes (String.ofList (text events)))⟩)
  case hunlimited =>
    intro events
    have hoffer := offer_eq events []
    have htaken := takes_of_offer events (⟨⟨[], none⟩⟩ : LineSink) (by rw [hoffer])
    rw [offer_of_takes events _ htaken] at hoffer
    exact ⟨htaken, congrArg (fun outcome => outcome.2.writer.written) hoffer⟩
  case houtput => exact hadds
  case hstart =>
    intro b
    have htext : String.ofList (text []) = "" := rfl
    rw [htext, bytes_empty, Writer.limited_nil]
  case hwriter =>
    intro b events
    rfl
  case hstep =>
    intro b before e
    rw [hadds]
    simp only [EventSink.record, Writer.write_limited]

end LineSink

namespace TableSink

theorem line_ne_nil (cells : List String) : Writer.bytes (line cells) ≠ [] := by
  rw [← bytes_empty, ne_eq, bytes_inj, line, String.append_eq_empty_iff, not_and]
  intro _
  decide

/-- What an event adds behind some rows. The header goes with the first row. -/
def added (done : List (List String)) (e : Event) : List UInt8 :=
  Writer.bytes (text (!done.isEmpty) (rows [e]))

/-- A table whose writer has room for `b` bytes, behind the events of some rows. The header counts as
written if there was room for all of it. -/
def limited (b : ℕ) (done : List (List String)) : TableSink :=
  ⟨.limited b (Writer.bytes (text false done)),
    !done.isEmpty && decide ((Writer.bytes (line columns)).length ≤ b)⟩

theorem text_singleton (headerWritten : Bool) (cells : List String) :
    Writer.bytes (text headerWritten [cells]) =
      (if headerWritten then [] else Writer.bytes (line columns)) ++ Writer.bytes (line cells) := by
  have hjoin : String.join ([cells].map line) = line cells := by simp
  cases headerWritten with
  | true => simp only [text, hjoin, if_true, String.empty_append, List.nil_append]
  | false => simp only [text, hjoin, Bool.false_eq_true, if_false, bytes_append]

theorem text_singleton_ne_nil (headerWritten : Bool) (cells : List String) :
    Writer.bytes (text headerWritten [cells]) ≠ [] := by
  rw [text_singleton]
  exact List.append_ne_nil_of_right_ne_nil _ (line_ne_nil cells)

/-- The header is part of the text of some rows. -/
theorem header_le_text (row : List String) (rest : List (List String)) :
    (Writer.bytes (line columns)).length ≤ (Writer.bytes (text false (row :: rest))).length := by
  simp only [text, Bool.false_eq_true, if_false, bytes_append, List.length_append]
  omega

/-- Before the header has been written it is offered together with the row. -/
theorem record_first (w : Writer) (e : Event) (cells : List String) (h : cells? e = some cells) :
    EventSink.record (⟨w, false⟩ : TableSink) e =
      ((w.write (Writer.bytes (text false [cells]))).1,
        ⟨(w.write (Writer.bytes (text false [cells]))).2,
          (w.write (Writer.bytes (line columns))).1.isOk⟩) := by
  rw [text_singleton, if_neg Bool.false_ne_true, Writer.write_append]
  simp only [EventSink.record, h, writeHeader, Bool.false_eq_true, if_false]
  cases w.write (Writer.bytes (line columns)) with
  | mk outcome w => cases outcome <;> rfl

/-- Behind the header a row is offered alone. -/
theorem record_behind (w : Writer) (e : Event) (cells : List String) (h : cells? e = some cells) :
    EventSink.record (⟨w, true⟩ : TableSink) e =
      ((w.write (Writer.bytes (text true [cells]))).1,
        ⟨(w.write (Writer.bytes (text true [cells]))).2, true⟩) := by
  rw [text_singleton, if_pos rfl, List.nil_append]
  simp only [EventSink.record, h, writeHeader, if_true, writeRow]

/-- Behind any rows a row is offered with the header or alone, whichever is due. If there was no room
for the header it is offered again, but then the limit has been reached. -/
theorem record_row (b : ℕ) (done : List (List String)) (e : Event) (cells : List String)
    (h : cells? e = some cells) :
    EventSink.record (limited b done) e =
      (((Writer.limited b (Writer.bytes (text false done))).write
        (Writer.bytes (text (!done.isEmpty) [cells]))).1, limited b (done ++ [cells])) := by
  have htext : Writer.bytes (text false (done ++ [cells])) =
      Writer.bytes (text false done) ++ Writer.bytes (text (!done.isEmpty) [cells]) := by
    rw [text_append, bytes_append, Bool.false_or]
  have hrow : (done ++ [cells]).isEmpty = false := by simp
  rw [limited, limited, htext, hrow, Bool.not_false, Bool.true_and]
  cases done with
  | nil =>
    have hempty : Writer.bytes (text false []) = [] := bytes_empty
    have hheader := Writer.isOk_write_limited b [] _ (line_ne_nil columns)
    rw [List.isEmpty_nil, Bool.not_true, Bool.false_and, hempty, record_first _ e cells h, hheader,
      Writer.write_limited, List.nil_append, List.nil_append]
  | cons row rest =>
    rw [List.isEmpty_cons, Bool.not_false, Bool.true_and]
    -- the header is behind the table, or it is still to be written and there is no room for it
    by_cases hroom : (Writer.bytes (line columns)).length ≤ b
    · rw [decide_eq_true hroom, record_behind _ e cells h, Writer.write_limited]
    · have hfull : b ≤ (Writer.bytes (text false (row :: rest))).length :=
        (Nat.le_of_not_le hroom).trans (header_le_text row rest)
      rw [decide_eq_false hroom, record_first _ e cells h,
        Writer.write_of_full b _ _ hfull (line_ne_nil columns),
        Writer.write_of_full b _ _ hfull (text_singleton_ne_nil false cells),
        Writer.write_of_full b _ _ hfull (text_singleton_ne_nil true cells),
        Writer.limited_append b _ _ hfull]
      rfl

theorem record_limited (b : ℕ) (done : List (List String)) (e : Event) :
    EventSink.record (limited b done) e =
      (((Writer.limited b (Writer.bytes (text false done))).write (added done e)).1,
        limited b (done ++ rows [e])) := by
  cases hcells : cells? e with
  | none =>
    have hrows : rows [e] = [] := List.filterMap_cons_none hcells
    have hadded : added done e = [] := by
      rw [added, hrows]
      exact bytes_empty
    rw [hadded, hrows, Writer.write_nil, List.append_nil]
    simp only [EventSink.record, hcells]
  | some cells =>
    have hrows : rows [e] = [cells] := List.filterMap_cons_some hcells
    rw [added, hrows, record_row b done e cells hcells]

/-- A table offers its writer the row of every event that has one, and the header before the first. -/
theorem cutsOff : CutsOff new writer fun events => Writer.bytes (text false (rows events)) := by
  have hrows (before : List Event) (e : Event) : rows (before ++ [e]) = rows before ++ rows [e] :=
    List.filterMap_append
  apply CutsOff.of_steps (fun before e => added (rows before) e)
    (fun b events => limited b (rows events))
  case hunlimited => exact written_eq
  case houtput =>
    intro before e
    rw [hrows, text_append, bytes_append]
    rfl
  case hstart =>
    intro b
    have htext : text false (rows []) = "" := rfl
    rw [limited, htext, bytes_empty, Writer.limited_nil]
    rfl
  case hwriter =>
    intro b events
    rfl
  case hstep =>
    intro b before e
    rw [record_limited, hrows]

end TableSink

/-- With room for `b` bytes a table and a file of lines hold the first `b` bytes of what they would
hold without a limit, and refuse an event exactly if it adds bytes beyond these. Lines may reach the
writer in any parts. -/
theorem limitedRoom_cutsOff :
    CutsOff TableSink.new TableSink.writer (fun events => Writer.bytes
      (if TableSink.records events = [] then ""
        else String.join ((TableSink.columns :: TableSink.rows events).map TableSink.line))) ∧
    CutsOff LineSink.mk LineSink.writer
      (fun events => Writer.bytes (String.ofList (LineSink.text events))) ∧
    ∀ parts w, Writer.writeParts parts w = w.write parts.flatten := by
  refine ⟨?_, LineSink.cutsOff, Writer.writeParts_eq⟩
  simp only [← TableSink.text_rows]
  exact TableSink.cutsOff

/-- The header is tried for both records. What there is room for is written once. -/
example : (recordAll [.iterationRecord 0 0.5 4 2 none none none,
      .iterationRecord 1 0.5 4 2 none none none] (TableSink.new (.new (some 12)))).writer.written =
    Writer.bytes "iteration\tme" := by
  decide +kernel

end Replanning
