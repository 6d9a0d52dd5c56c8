import Replanning.Proofs.Json.Line
import Replanning.Proofs.PlainText
import Replanning.Proofs.Sink

/-! Whatever events are recorded, the text of the table is the header and a line for every record of
an iteration, or nothing if there is none, and the records are read back from it. -/
namespace Replanning

/-- The event reports on a whole iteration. -/
def Event.isRecord : Event → Bool
  | .iterationRecord .. => true
  | _ => false

namespace TableSink
open Json (Word digitsValue)

/-- The reports on whole iterations among some events. -/
def records (events : List Event) : List Event :=
  events.filter Event.isRecord

def rows (events : List Event) : List (List String) :=
  events.filterMap cells?

/-- The text of some rows, behind that of the header unless this has been written. -/
def text (headerWritten : Bool) : List (List String) → String
  | [] => ""
  | rows => (if headerWritten then "" else line columns) ++ String.join (rows.map line)

/-- What is written when some events are recorded in a new table, whose writer has no limit. -/
def written (events : List Event) : List UInt8 :=
  (recordAll events (new (.new none))).writer.written

/-- A table with what has been written, whose writer has no limit. -/
def unlimited (before : List UInt8) (headerWritten : Bool) : TableSink :=
  ⟨⟨before, none⟩, headerWritten⟩

theorem text_append (headerWritten : Bool) (rows rows' : List (List String)) :
    text headerWritten (rows ++ rows') =
      text headerWritten rows ++ text (headerWritten || !rows.isEmpty) rows' := by
  cases rows with
  | nil => simp [text]
  | cons row rows =>
    cases rows' with
    | nil => simp [text]
    | cons row' rows' => simp [text, String.append_assoc]

/-- One event adds its row, if it has one, and no row goes before the header. -/
theorem record_eq (before : List UInt8) (headerWritten : Bool) (e : Event) :
    EventSink.record (unlimited before headerWritten) e =
      (.ok (), unlimited (before ++ Writer.bytes (text headerWritten (rows [e])))
        (headerWritten || !(rows [e]).isEmpty)) := by
  cases hcells : cells? e with
  | none =>
    have hrows : rows [e] = [] := List.filterMap_cons_none hcells
    simp only [EventSink.record, hcells, hrows, text, bytes_empty, List.append_nil,
      List.isEmpty_nil, Bool.not_true, Bool.or_false]
  | some cells =>
    have hrows : rows [e] = [cells] := List.filterMap_cons_some hcells
    have hjoin : String.join ([cells].map line) = line cells := by simp
    simp only [EventSink.record, hcells, hrows, text, hjoin]
    cases headerWritten with
    | true =>
      rw [if_pos rfl, String.empty_append]
      rfl
    | false =>
      rw [if_neg Bool.false_ne_true, bytes_append, ← List.append_assoc]
      rfl

theorem rows_cons (e : Event) (events : List Event) :
    rows (e :: events) = rows [e] ++ rows events :=
  List.filterMap_append (l := [e])

/-- The events of a run add their rows behind one header. -/
theorem recordAll_eq (events : List Event) (before : List UInt8) (headerWritten : Bool) :
    Takes (unlimited before headerWritten) events ∧
      recordAll events (unlimited before headerWritten) =
        unlimited (before ++ Writer.bytes (text headerWritten (rows events)))
          (headerWritten || !(rows events).isEmpty) := by
  induction events generalizing before headerWritten with
  | nil =>
    have htext : text headerWritten (rows []) = "" := rfl
    rw [htext, bytes_empty, List.append_nil]
    exact ⟨trivial, by simp [recordAll, rows]⟩
  | cons e rest ih =>
    -- what the first event leaves behind is where the others start
    have hstep := record_eq before headerWritten e
    obtain ⟨htaken, hrest⟩ := ih (before ++ Writer.bytes (text headerWritten (rows [e])))
      (headerWritten || !(rows [e]).isEmpty)
    rw [rows_cons, text_append, bytes_append, ← List.append_assoc]
    refine ⟨⟨by rw [hstep], by rw [hstep]; exact htaken⟩, ?_⟩
    change recordAll rest (EventSink.record _ e).2 = _
    rw [hstep, hrest]
    cases rows [e] with
    | nil => simp
    | cons => simp

/-- The cells of the lines of a text. -/
def cellsOf (text : String) : List (List (List Char)) :=
  (Json.lines text.toList).map (·.splitOn '\t')

def readCell : List Char → Option Float
  | [] => none
  | cs => some (readPlain cs)

/-- The record that a line with seven cells tells of. -/
def readRow : List (List Char) → Option Event
  | [iteration, meanGap, trustRegion, replications, within, between, t] =>
    some (.iterationRecord (.ofNat (digitsValue iteration)) (readPlain meanGap)
      (.ofNat (digitsValue trustRegion)) (.ofNat (digitsValue replications))
      (readCell within) (readCell between) (readCell t))
  | _ => none

/-- What stays within its cell. -/
def Fits (s : String) : Prop :=
  '\t' ∉ s.toList ∧ '\n' ∉ s.toList

theorem fits_of_word (s : String) (h : Word s.toList) : Fits s :=
  ⟨fun hc => absurd (h.2 _ hc) (by decide), fun hc => absurd (h.2 _ hc) (by decide)⟩

theorem not_mem_intercalate {α : Type} (x sep : α) (hx : x ≠ sep) (parts : List (List α))
    (h : ∀ part ∈ parts, x ∉ part) : x ∉ [sep].intercalate parts := by
  induction parts with
  | nil => simp
  | cons part rest ih =>
    obtain ⟨hpart, hrest⟩ := List.forall_mem_cons.mp h
    by_cases hnil : rest = []
    · rw [hnil, List.intercalate_singleton]
      exact hpart
    · rw [List.intercalate_cons_of_ne_nil hnil]
      simp [hpart, hx, ih hrest]

/-- The lines of a text have the cells that it was made of. -/
theorem cellsOf_join (rows : List (List String)) (hne : ∀ row ∈ rows, row ≠ [])
    (hfits : ∀ row ∈ rows, ∀ s ∈ row, Fits s) :
    cellsOf (String.join (rows.map line)) = rows.map (List.map String.toList) := by
  let body (row : List String) : List Char := ['\t'].intercalate (row.map String.toList)
  have hline (row : List String) : (line row).toList = body row ++ ['\n'] := by
    rw [line, String.toList_append, String.toList_intercalate]
    rfl
  have htext : (String.join (rows.map line)).toList = (rows.map body).flatMap (· ++ ['\n']) := by
    rw [String.toList_join, List.flatMap_map, List.flatMap_map]
    simp only [hline]
  have hbody : ∀ l ∈ rows.map body, '\n' ∉ l := by
    rw [List.forall_mem_map]
    intro row hrow
    apply not_mem_intercalate _ _ (by decide)
    rw [List.forall_mem_map]
    exact fun s hs => (hfits row hrow s hs).2
  have hcells (row : List String) (hrow : row ∈ rows) :
      (body row).splitOn '\t' = row.map String.toList := by
    apply List.splitOn_intercalate
    · rw [List.forall_mem_map]
      exact fun s hs => (hfits row hrow s hs).1
    · exact mt List.map_eq_nil_iff.mp (hne row hrow)
  rw [cellsOf, htext, Json.lines_flatMap _ hbody, List.map_map]
  exact List.map_congr_left hcells

theorem fits_cell (x : Option Float) : Fits (cell x) := by
  cases x with
  | none => exact ⟨List.not_mem_nil, List.not_mem_nil⟩
  | some x => exact fits_of_word _ (read_plainText x).1

theorem cell_eq_empty_iff (x : Option Float) : cell x = "" ↔ x = none := by
  cases x with
  | none => exact ⟨fun _ => rfl, fun _ => rfl⟩
  | some x => exact ⟨fun h => absurd (congrArg String.toList h) (read_plainText x).1.1, nofun⟩

theorem readCell_cell (x : Option Float) : readCell (cell x).toList = x := by
  cases x with
  | none => rfl
  | some x =>
    obtain ⟨hword, hread⟩ := read_plainText x
    change readCell (plainText x).toList = _
    rw [readCell, hread]
    exact hword.1

theorem read_repr (n : ℕ) : Fits (Nat.repr n) ∧ digitsValue (Nat.repr n).toList = n := by
  have hchars (c : Char) (hc : c ∈ Nat.toDigits 10 n) : Json.isWordChar c = true :=
    Json.isWordChar_of_isDigit c (Json.isDigit_toDigits n c hc)
  have hword : Word (Nat.repr n).toList := by
    rw [Nat.toList_repr]
    exact ⟨Nat.toDigits_ne_nil, hchars⟩
  refine ⟨fits_of_word _ hword, ?_⟩
  rw [Nat.toList_repr, Json.digitsValue_toDigits]

/-- The cells of a row, from which the record is read back. -/
theorem cells_of_record (e : Event) (cells : List String) (h : cells? e = some cells) :
    cells.length = 7 ∧ (∀ s ∈ cells, Fits s) ∧ cells ≠ columns ∧
      readRow (cells.map String.toList) = some e := by
  cases e with
  | iterationRecord iteration meanGap trustRegion replications within between t =>
    obtain ⟨hi, hiteration⟩ := read_repr iteration.toNat
    obtain ⟨hr, htrust⟩ := read_repr trustRegion.toNat
    obtain ⟨hn, hreplications⟩ := read_repr replications.toNat
    obtain ⟨hg, hgap⟩ := read_plainText meanGap
    obtain rfl := Option.some.inj h
    refine ⟨rfl, ?_, ?_, ?_⟩
    · simp only [List.forall_mem_cons]
      exact ⟨hi, fits_of_word _ hg, hr, hn, fits_cell within, fits_cell between, fits_cell t, nofun⟩
    -- a row starts with a digit, and the header does not
    · intro hcolumns
      have hname : Nat.repr iteration.toNat = "iteration" := (List.cons.inj hcolumns).1
      have hdigit := Json.isDigit_toDigits iteration.toNat 'i'
      rw [← Nat.toList_repr, hname] at hdigit
      exact absurd (hdigit (by decide)) (by decide)
    · simp only [List.map_cons, List.map_nil, readRow, hiteration, htrust, hreplications, hgap,
        readCell_cell, UInt64.ofNat_toNat, UInt32.ofNat_toNat]
  | _ => cases h

theorem shape_of_row (events : List Event) (row : List String) (h : row ∈ rows events) :
    row.length = 7 ∧ (∀ s ∈ row, Fits s) ∧ row ≠ columns := by
  obtain ⟨e, _, he⟩ := List.mem_filterMap.mp h
  obtain ⟨hlength, hfits, hne, _⟩ := cells_of_record e row he
  exact ⟨hlength, hfits, hne⟩

theorem fits_columns : ∀ s ∈ columns, Fits s := by
  unfold Fits
  decide

theorem records_cons (e : Event) (events : List Event) :
    records (e :: events) = records [e] ++ records events :=
  List.filter_append [e] events

/-- Every record has its row, in the order of the records, and nothing else has one. -/
theorem read_rows (events : List Event) :
    (rows events).map (fun row => readRow (row.map String.toList)) = (records events).map some := by
  induction events with
  | nil => rfl
  | cons e rest ih =>
    rw [rows_cons, records_cons, List.map_append, List.map_append, ih]
    congr 1
    cases e with
    | iterationRecord i g r n within between t =>
      obtain ⟨_, _, _, hread⟩ :=
        cells_of_record (.iterationRecord i g r n within between t) _ rfl
      exact congrArg (fun e => [e]) hread
    | _ => rfl

theorem rows_eq_nil_iff (events : List Event) : rows events = [] ↔ records events = [] := by
  rw [← List.map_eq_nil_iff, read_rows, List.map_eq_nil_iff]

/-- A text with rows is the header and the rows, each on a line of its own. -/
theorem text_rows (events : List Event) : text false (rows events) =
    if records events = [] then "" else String.join ((columns :: rows events).map line) := by
  split_ifs with hnil
  · rw [(rows_eq_nil_iff events).mpr hnil]
    rfl
  · rw [List.map_cons, String.join_cons]
    cases hrows : rows events with
    | nil => exact absurd ((rows_eq_nil_iff events).mp hrows) hnil
    | cons row rest => rfl

/-- The cells of the text are those of the rows, behind those of the header if there is a row. -/
theorem cellsOf_text (events : List Event) :
    cellsOf (text false (rows events)) =
      if records events = [] then []
      else (columns :: rows events).map (List.map String.toList) := by
  rw [text_rows]
  split_ifs with hnil
  · rfl
  · apply cellsOf_join
    · refine List.forall_mem_cons.mpr ⟨List.cons_ne_nil _ _, fun row hrow => ?_⟩
      exact List.ne_nil_of_length_pos (by rw [(shape_of_row events row hrow).1]; decide)
    · exact List.forall_mem_cons.mpr
        ⟨fits_columns, fun row hrow => (shape_of_row events row hrow).2.1⟩

/-- All records are read back from the text, and nothing else is. -/
theorem read_text (events : List Event) :
    ((cellsOf (text false (rows events))).drop 1).map readRow = (records events).map some := by
  rw [cellsOf_text]
  split_ifs with hnil
  · rw [hnil]
    rfl
  · rw [List.map_cons, List.drop_succ_cons, List.drop_zero, List.map_map]
    exact read_rows events

theorem rows_records (events : List Event) : rows (records events) = rows events := by
  rw [rows, records, List.filterMap_filter]
  congr 1
  funext e
  cases e <;> rfl

theorem written_eq (events : List Event) : Takes (new (.new none)) events ∧
    written events = Writer.bytes (text false (rows events)) := by
  obtain ⟨htaken, hrun⟩ := recordAll_eq events [] false
  refine ⟨htaken, ?_⟩
  change (recordAll events (unlimited [] false)).writer.written = _
  rw [hrun]
  rfl

/-- The bytes tell the records, and are told by them. -/
theorem written_eq_iff (events events' : List Event) :
    written events = written events' ↔ records events = records events' := by
  rw [(written_eq events).2, (written_eq events').2, bytes_inj]
  constructor
  · intro htext
    have hread := read_text events
    rw [htext, read_text events'] at hread
    exact (List.map_injective_iff.mpr (Option.some_injective _) hread).symm
  · intro hrecords
    rw [← rows_records events, hrecords, rows_records]

/-- The table says exactly what was recorded: the header once, and a line of seven cells for every
record, from which it is read back. So two sequences of events have the same text if and only if they
have the same records, where doubles are the same if their bits are. -/
theorem table_exact (events : List Event) :
    Takes (new (.new none)) events ∧
    (∃ text : String, written events = Writer.bytes text ∧
      text = (if records events = [] then "" else String.join ((columns :: rows events).map line)) ∧
      cellsOf text = (if records events = [] then []
        else (columns :: rows events).map (List.map String.toList)) ∧
      (∀ cells ∈ cellsOf text, cells.length = 7) ∧
      ((cellsOf text).drop 1).map readRow = (records events).map some) ∧
    (written events = [] ↔ records events = []) ∧ columns ∉ rows events ∧
    (∀ x, cell x = "" ↔ x = none) ∧
    ∀ events', written events = written events' ↔ records events = records events' := by
  obtain ⟨htaken, hwritten⟩ := written_eq events
  have hcells := cellsOf_text events
  have hcolumns : columns ∉ rows events := fun hmem => (shape_of_row events columns hmem).2.2 rfl
  refine ⟨htaken, ⟨_, hwritten, text_rows events, hcells, ?_, read_text events⟩,
    written_eq_iff events [], hcolumns, cell_eq_empty_iff, written_eq_iff events⟩
  rw [hcells]
  split_ifs
  · exact nofun
  · rw [List.forall_mem_map, List.forall_mem_cons]
    refine ⟨rfl, fun row hrow => ?_⟩
    rw [List.length_map]
    exact (shape_of_row events row hrow).1

/-- A record between events without a row, and one that differs from it in the sign of a zero. -/
theorem table_exact_zeros : ∃ text : String,
    written [.stationarityChecked 0 1 30 none false,
      .iterationRecord 0 0.5 4 2 (some 0.0) none (some .nan),
      .replicationsDoubled 0 2 4 true 1 0.0 0.0] = Writer.bytes text ∧
    text = line columns ++ "0\t0.5\t4\t2\t0\t\tNaN\n" ∧
    (∀ cells ∈ cellsOf text, cells.length = 7) ∧
    Writer.bytes text ≠ written [.iterationRecord 0 0.5 4 2 (some (-0.0)) none (some .nan)] := by
  obtain ⟨_, ⟨text, hwritten, htext, _, hseven, _⟩, _, _, _, hsame⟩ := table_exact
    [.stationarityChecked 0 1 30 none false,
      .iterationRecord 0 0.5 4 2 (some 0.0) none (some .nan),
      .replicationsDoubled 0 2 4 true 1 0.0 0.0]
  have hrow : text = line columns ++ "0\t0.5\t4\t2\t0\t\tNaN\n" := by
    rw [htext]
    decide +kernel
  refine ⟨text, hwritten, hrow, hseven, fun hbytes => ?_⟩
  have hrecords := (hsame _).mp (hwritten.trans hbytes)
  have hzero := (Event.iterationRecord.inj (List.cons.inj hrecords).1).2.2.2.2.1
  exact absurd (congrArg Float.toBits (Option.some.inj hzero)) (by decide +kernel)

end TableSink

end Replanning
