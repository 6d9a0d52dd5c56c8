import Replanning.Proofs.Json.Reader

namespace Replanning.Json

theorem tokens_blank (c : Char) (rest : List Char) (hc : isBlank c = true) :
    tokens (c :: rest) = tokens rest := by
  rw [tokens, if_pos hc]

theorem tokens_spaces (count : ℕ) (rest : List Char) :
    tokens (List.replicate count ' ' ++ rest) = tokens rest := by
  induction count with
  | zero => rfl
  | succ count ih => rw [List.replicate_succ, List.cons_append, tokens_blank _ _ rfl, ih]

theorem tokens_lineStart (level : ℕ) (rest : List Char) :
    tokens (lineStart level ++ rest) = tokens rest := by
  rw [lineStart, List.cons_append, tokens_blank _ _ rfl, tokens_spaces]

/-- No word goes on at the start of a line. -/
theorem boundary_lineStart (level : ℕ) (rest : List Char) : Boundary (lineStart level ++ rest) :=
  boundary_cons _ _ rfl

mutual

/-- Reading the indented text token by token. -/
theorem tokens_indentedText (level : ℕ) (v : Json) (rest : List Char) (ts : List Token)
    (hv : writable v = true) (hr : Boundary rest) (h : tokens rest = some ts) :
    tokens (indentedText level v ++ rest) = some (tokenList v ++ ts) := by
  match v with
  | .array [] => exact tokens_compactText (.array []) rest ts hv hr h
  | .object [] => exact tokens_compactText (.object []) rest ts hv hr h
  | .array (w :: more) =>
    rw [indentedText.eq_3 _ _ (by simp), tokenList]
    simp only [List.append_assoc, List.cons_append, List.nil_append]
    -- the closing bracket stands on a line of its own
    apply tokens_mark _ _ _ _ rfl
    apply tokens_indentedItems level (w :: more) _ _ hv (boundary_lineStart level _)
    rw [tokens_lineStart]
    exact tokens_mark _ _ _ _ rfl h
  | .object (m :: more) =>
    rw [indentedText.eq_4 _ _ (by simp), tokenList]
    simp only [List.append_assoc, List.cons_append, List.nil_append]
    apply tokens_mark _ _ _ _ rfl
    apply tokens_indentedMembers level (m :: more) _ _ hv (boundary_lineStart level _)
    rw [tokens_lineStart]
    exact tokens_mark _ _ _ _ rfl h
  -- what is no container is written as without blanks
  | .null => exact tokens_compactText .null rest ts hv hr h
  | .bool b => exact tokens_compactText (.bool b) rest ts hv hr h
  | .integer i => exact tokens_compactText (.integer i) rest ts hv hr h
  | .float x => exact tokens_compactText (.float x) rest ts hv hr h
  | .string s => exact tokens_compactText (.string s) rest ts hv hr h
  | .unreadable => exact absurd hv (by decide)

theorem tokens_indentedItems (level : ℕ) (items : List Json) (rest : List Char) (ts : List Token)
    (hv : writableItems items = true) (hr : Boundary rest) (h : tokens rest = some ts) :
    tokens (indentedItems level items ++ rest) = some (tokenItems items ++ ts) := by
  match items with
  | [] => exact h
  | [v] =>
    rw [writableItems, Bool.and_eq_true] at hv
    rw [indentedItems, tokenItems, List.append_assoc, tokens_lineStart]
    exact tokens_indentedText (level + 1) v rest ts hv.1 hr h
  | v :: w :: more =>
    rw [writableItems, Bool.and_eq_true] at hv
    rw [indentedItems.eq_3 _ _ _ (by simp), tokenItems.eq_3 _ _ (by simp)]
    simp only [List.append_assoc, List.cons_append]
    rw [tokens_lineStart]
    apply tokens_indentedText (level + 1) v _ _ hv.1 (boundary_cons _ _ rfl)
    apply tokens_mark _ _ _ _ rfl
    exact tokens_indentedItems level (w :: more) rest ts hv.2 hr h

theorem tokens_indentedMembers (level : ℕ) (members : List (String × Json)) (rest : List Char)
    (ts : List Token) (hv : writableMembers members = true) (hr : Boundary rest)
    (h : tokens rest = some ts) :
    tokens (indentedMembers level members ++ rest) = some (tokenMembers members ++ ts) := by
  match members with
  | [] => exact h
  | [(k, v)] =>
    rw [writableMembers, Bool.and_eq_true] at hv
    rw [indentedMembers, tokenMembers]
    simp only [List.append_assoc, List.cons_append]
    rw [tokens_lineStart]
    -- a blank follows the colon behind a name
    apply tokens_quoted
    apply tokens_mark _ _ _ _ rfl
    rw [tokens_blank _ _ rfl]
    exact tokens_indentedText (level + 1) v rest ts hv.1 hr h
  | (k, v) :: w :: more =>
    rw [writableMembers, Bool.and_eq_true] at hv
    rw [indentedMembers.eq_3 _ _ _ _ (by simp), tokenMembers.eq_3 _ _ _ (by simp)]
    simp only [List.append_assoc, List.cons_append]
    rw [tokens_lineStart]
    apply tokens_quoted
    apply tokens_mark _ _ _ _ rfl
    rw [tokens_blank _ _ rfl]
    apply tokens_indentedText (level + 1) v _ _ hv.1 (boundary_cons _ _ rfl)
    apply tokens_mark _ _ _ _ rfl
    exact tokens_indentedMembers level (w :: more) rest ts hv.2 hr h

end

/-- What is written with an indentation is read back as it was. -/
theorem read_indented (v : Json) (hv : writable v = true) : read v.indented = some v := by
  have h := tokens_indentedText 0 v [] [] hv boundary_nil tokens_nil
  rw [List.append_nil, List.append_nil] at h
  apply read_of_tokens
  rw [indented, String.toList_ofList, h]

end Replanning.Json
