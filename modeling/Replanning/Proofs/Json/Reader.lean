import Mathlib
import Replanning.Json.Reader
import Replanning.Proofs.Json.Token

namespace Replanning.Json

/-- No value starts with the end of an array. -/
theorem tokenList_eq_cons (v : Json) :
    ∃ t ts, tokenList v = t :: ts ∧ ∀ outer,
      Reading.step (.firstItem outer) t = Reading.step (.value (.items [] :: outer)) t := by
  cases v <;> exact ⟨_, _, rfl, fun _ => rfl⟩

/-- The first item of an array is read like every other. -/
theorem foldlM_firstItem (v : Json) (rest : List Json) (outer : List Frame) :
    (tokenItems (v :: rest)).foldlM Reading.step (.firstItem outer) =
      (tokenItems (v :: rest)).foldlM Reading.step (.value (.items [] :: outer)) := by
  have hstart : ∃ ts, tokenItems (v :: rest) = tokenList v ++ ts := by
    cases rest with
    | nil => exact ⟨[], (List.append_nil _).symm⟩
    | cons w more => exact ⟨_, rfl⟩
  obtain ⟨ts, htokens⟩ := hstart
  obtain ⟨t, more, hfirst, hstep⟩ := tokenList_eq_cons v
  rw [htokens, hfirst, List.cons_append, List.foldlM_cons, List.foldlM_cons, hstep]

/-- The first name of an object is read like every other. -/
theorem foldlM_firstName (k : String) (v : Json) (rest : List (String × Json))
    (outer : List Frame) :
    (tokenMembers ((k, v) :: rest)).foldlM Reading.step (.firstName outer) =
      (tokenMembers ((k, v) :: rest)).foldlM Reading.step (.nextName [] outer) := by
  cases rest with
  | nil => rfl
  | cons w more => rfl

def named (member : String × Json) : Member :=
  (some member.1, member.2)

theorem ofMembers_named (members : List (String × Json)) :
    ofMembers (members.map named) = .object members := by
  unfold ofMembers
  -- the function is kept closed, so that the induction sees it as one
  generalize hread : (fun member : Member => _ : Member → Option (String × Json)) = f
  have h : (members.map named).mapM f = some members := by
    induction members with
    | nil => rfl
    | cons member members ih =>
      rw [List.map_cons, List.mapM_cons, ih, ← hread]
      rfl
  rw [h]

mutual

/-- The tokens of a value lead to the state behind this value. -/
theorem foldlM_tokenList (v : Json) (outer : List Frame) :
    (tokenList v).foldlM Reading.step (.value outer) = some (complete v outer) := by
  match v with
  | .null => rfl
  | .bool _ => rfl
  | .integer _ => rfl
  | .float _ => rfl
  | .string _ => rfl
  | .unreadable => rfl
  | .array [] => rfl
  | .object [] => rfl
  | .array (v :: rest) =>
    rw [tokenList, List.cons_append, List.foldlM_cons]
    change (tokenItems (v :: rest) ++ [Token.closeBracket]).foldlM Reading.step
      (.firstItem outer) = _
    -- behind an opened array the end may follow, which no item starts with
    rw [List.foldlM_append, foldlM_firstItem, foldlM_tokenItems (v :: rest) [] outer (by simp)]
    change some (complete (.array ((v :: rest).reverse ++ []).reverse) outer) = _
    rw [List.append_nil, List.reverse_reverse]
  | .object ((k, v) :: rest) =>
    rw [tokenList, List.cons_append, List.foldlM_cons]
    change (tokenMembers ((k, v) :: rest) ++ [Token.closeBrace]).foldlM Reading.step
      (.firstName outer) = _
    rw [List.foldlM_append, foldlM_firstName,
      foldlM_tokenMembers ((k, v) :: rest) [] outer (by simp)]
    change some (complete (ofMembers ((((k, v) :: rest).map named).reverse ++ []).reverse)
      outer) = _
    rw [List.append_nil, List.reverse_reverse, ofMembers_named]

theorem foldlM_tokenItems (items done : List Json) (outer : List Frame) (hne : items ≠ []) :
    (tokenItems items).foldlM Reading.step (.value (.items done :: outer)) =
      some (.afterItem (items.reverse ++ done) outer) := by
  match items with
  | [] => exact absurd rfl hne
  | [v] => exact foldlM_tokenList v (.items done :: outer)
  | v :: w :: more =>
    rw [tokenItems.eq_3 _ _ (by simp), List.foldlM_append,
      foldlM_tokenList v (.items done :: outer)]
    change (tokenItems (w :: more)).foldlM Reading.step (.value (.items (v :: done) :: outer)) = _
    rw [foldlM_tokenItems (w :: more) (v :: done) outer (by simp)]
    simp

theorem foldlM_tokenMembers (members : List (String × Json)) (done : List Member)
    (outer : List Frame) (hne : members ≠ []) :
    (tokenMembers members).foldlM Reading.step (.nextName done outer) =
      some (.afterMember ((members.map named).reverse ++ done) outer) := by
  match members with
  | [] => exact absurd rfl hne
  | [(k, v)] => exact foldlM_tokenList v (.member done (some k) :: outer)
  | (k, v) :: w :: more =>
    rw [tokenMembers.eq_3 _ _ _ (by simp)]
    change (tokenList v ++ Token.comma :: tokenMembers (w :: more)).foldlM Reading.step
      (.value (.member done (some k) :: outer)) = _
    rw [List.foldlM_append, foldlM_tokenList v (.member done (some k) :: outer)]
    change (tokenMembers (w :: more)).foldlM Reading.step
      (.nextName (named (k, v) :: done) outer) = _
    rw [foldlM_tokenMembers (w :: more) (named (k, v) :: done) outer (by simp)]
    simp

end

/-- A text with the tokens of a value is read as this value. -/
theorem read_of_tokens (text : String) (v : Json) (h : tokens text.toList = some (tokenList v)) :
    read text = some v := by
  rw [read, h]
  change ((tokenList v).foldlM Reading.step (.value []) >>= _) = _
  rw [foldlM_tokenList]
  rfl

/-- What is written without blanks is read back as it was. -/
theorem read_compact (v : Json) (hv : writable v = true) : read v.compact = some v :=
  read_of_tokens v.compact v (tokens_compact v hv)

end Replanning.Json
