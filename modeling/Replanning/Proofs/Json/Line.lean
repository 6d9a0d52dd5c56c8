import Mathlib
import Replanning.Proofs.Json.Token

namespace Replanning.Json

theorem newline_not_mem_word (cs : List Char) (h : Word cs) : '\n' ∉ cs := by
  intro hmem
  have hword := h.2 '\n' hmem
  exact absurd hword (by decide)

theorem newline_not_mem_escaped (c : Char) : '\n' ∉ escaped c := by
  have hdigit : ∀ d < 16, '\n' ≠ Nat.digitChar d := by decide
  unfold escaped
  split
  -- behind the seven escapes of one letter: control characters, and the others as they stand
  case h_8 _ _ hnewline _ _ _ _ =>
    split_ifs with hc
    · have hhigh := hdigit (c.toNat / 16) (by omega)
      have hlow := hdigit (c.toNat % 16) (by omega)
      simp [hhigh, hlow]
    · simpa using Ne.symm hnewline
  all_goals decide

theorem newline_not_mem_quoted (s : String) : '\n' ∉ quoted s := by
  simp [quoted, newline_not_mem_escaped]

mutual

theorem newline_not_mem_compactText (v : Json) (hv : writable v = true) :
    '\n' ∉ compactText v := by
  cases v with
  | null => exact newline_not_mem_word _ scalar_null.1
  | bool b => exact newline_not_mem_word _ (scalar_bool b).1
  | integer i => exact newline_not_mem_word _ (scalar_integer i hv).1
  | float x =>
    have htext : compactText (.float x) = (numberLayout.text x).toList := if_pos hv
    rw [htext]
    exact newline_not_mem_word _ (scalar_float x hv).1
  | string s => exact newline_not_mem_quoted s
  | array items =>
    have hitems := newline_not_mem_compactItems items hv
    simp [compactText, hitems]
  | object members =>
    have hmembers := newline_not_mem_compactMembers members hv
    simp [compactText, hmembers]
  | unreadable => exact absurd hv (by decide)

theorem newline_not_mem_compactItems (items : List Json) (hv : writableItems items = true) :
    '\n' ∉ compactItems items := by
  match items with
  | [] => exact List.not_mem_nil
  | [v] =>
    rw [writableItems, Bool.and_eq_true] at hv
    exact newline_not_mem_compactText v hv.1
  | v :: w :: more =>
    rw [writableItems, Bool.and_eq_true] at hv
    have hfirst := newline_not_mem_compactText v hv.1
    have hmore := newline_not_mem_compactItems (w :: more) hv.2
    rw [compactItems.eq_3 _ _ (by simp)]
    simp [hfirst, hmore]

theorem newline_not_mem_compactMembers (members : List (String × Json))
    (hv : writableMembers members = true) : '\n' ∉ compactMembers members := by
  match members with
  | [] => exact List.not_mem_nil
  | [(k, v)] =>
    rw [writableMembers, Bool.and_eq_true] at hv
    have hname := newline_not_mem_quoted k
    have hvalue := newline_not_mem_compactText v hv.1
    simp [compactMembers, hname, hvalue]
  | (k, v) :: w :: more =>
    rw [writableMembers, Bool.and_eq_true] at hv
    have hname := newline_not_mem_quoted k
    have hvalue := newline_not_mem_compactText v hv.1
    have hmore := newline_not_mem_compactMembers (w :: more) hv.2
    rw [compactMembers.eq_3 _ _ _ (by simp)]
    simp [hname, hvalue, hmore]

end

/-- The lines of a text, each of which ends with a line break. -/
def lines (text : List Char) : List (List Char) :=
  (text.splitOn '\n').dropLast

/-- One line break more than there are lines, with nothing behind the last one. -/
theorem flatMap_newline (written : List (List Char)) :
    written.flatMap (· ++ ['\n']) = ['\n'].intercalate (written ++ [[]]) := by
  induction written with
  | nil => exact (List.intercalate_singleton).symm
  | cons l rest ih =>
    have hne : rest ++ [[]] ≠ [] := by simp
    rw [List.flatMap_cons, ih, List.cons_append, List.intercalate_cons_of_ne_nil hne]

/-- What is written line by line is taken apart into the same lines. -/
theorem lines_flatMap (written : List (List Char)) (h : ∀ l ∈ written, '\n' ∉ l) :
    lines (written.flatMap (· ++ ['\n'])) = written := by
  have hparts : ∀ l ∈ written ++ [[]], '\n' ∉ l := by
    intro l hl
    rcases List.mem_append.mp hl with hl | hl
    · exact h l hl
    · rw [List.mem_singleton.mp hl]
      exact List.not_mem_nil
  rw [lines, flatMap_newline, List.splitOn_intercalate _ hparts (by simp), List.dropLast_concat]

end Replanning.Json
