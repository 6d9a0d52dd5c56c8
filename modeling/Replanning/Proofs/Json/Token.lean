import Mathlib
import Replanning.Proofs.Json.Number

namespace Replanning.Json

theorem hexValue_digitChar : ∀ d < 16, hexValue? (Nat.digitChar d) = some d := by
  decide

theorem codeUnit_control (c : Char) (hc : c.toNat < 0x20) :
    codeUnit? '0' '0' (Nat.digitChar (c.toNat / 16)) (Nat.digitChar (c.toNat % 16)) =
      some c.toNat := by
  have hzero : hexValue? '0' = some 0 := by decide
  have hhigh := hexValue_digitChar (c.toNat / 16) (by omega)
  have hlow := hexValue_digitChar (c.toNat % 16) (by omega)
  simp only [codeUnit?, hzero, hhigh, hlow]
  change some _ = some _
  congr 1
  omega

theorem join_control (c : Char) (hc : c.toNat < 0x20) (pieces : List Piece) :
    join? (.unit c.toNat :: pieces) = (join? pieces).map (c :: ·) := by
  have hhigh : ¬ (decide (0xD800 ≤ c.toNat) && decide (c.toNat < 0xDC00)) = true := by
    simp; omega
  have hlow : ¬ (decide (0xDC00 ≤ c.toNat) && decide (c.toNat < 0xE000)) = true := by
    simp; omega
  have hboth : ¬ (decide (0xD800 ≤ c.toNat) && decide (c.toNat < 0xE000)) = true := by
    simp; omega
  have hchar : Char.ofNat c.toNat = c := Char.ofNat_toNat c
  -- what follows decides which equation of `join?` applies, and all of them agree
  rcases pieces with _ | ⟨d | code, pieces⟩
  · simp only [join?, if_neg hboth, hchar]
  · simp only [join?, if_neg hboth, hchar]
  · rw [join?, if_neg hhigh, if_neg hlow, hchar]

theorem scanString_letter (e c : Char) (rest : List Char) (he : e ≠ 'u')
    (hc : escape? e = some c) : scanString ('\\' :: e :: rest) =
      (scanString rest).map fun (pieces, after) => (.char c :: pieces, after) := by
  rw [scanString, hc]
  · cases scanString rest <;> rfl
  · rintro _ _ _ _ _ rfl
    exact absurd rfl he

theorem scanString_plain (c : Char) (rest : List Char) (hc : ¬ c.toNat < 0x20) (hquote : c ≠ '"')
    (hslash : c ≠ '\\') : scanString (c :: rest) =
      (scanString rest).map fun (pieces, after) => (.char c :: pieces, after) := by
  have hplain : ¬ (decide (c.toNat < 0x20) || decide (c = '\\')) = true := by
    simpa using ⟨Nat.not_lt.mp hc, hslash⟩
  rw [scanString, if_neg hplain]
  · cases scanString rest <;> rfl
  · exact hquote
  · rintro _ _ _ _ _ rfl
    exact absurd rfl hslash
  · rintro _ _ rfl
    exact absurd rfl hslash

/-- One character of a string, escaped or not, is one piece that spells it. -/
theorem scanString_escaped (c : Char) :
    ∃ piece, (∀ rest, scanString (escaped c ++ rest) =
        (scanString rest).map fun (pieces, after) => (piece :: pieces, after)) ∧
      ∀ pieces, join? (piece :: pieces) = (join? pieces).map (c :: ·) := by
  unfold escaped
  split
  -- behind the seven escapes of one letter: control characters, and the others as they stand
  case h_8 hquote hslash _ _ _ _ _ =>
    split_ifs with hc
    · refine ⟨.unit c.toNat, fun rest => ?_, join_control c hc⟩
      simp only [List.cons_append, List.nil_append]
      rw [scanString, codeUnit_control c hc]
      cases scanString rest <;> rfl
    · exact ⟨.char _, fun rest => scanString_plain _ rest hc hquote hslash,
        fun pieces => by rw [join?]⟩
  all_goals exact ⟨.char _, fun rest => scanString_letter _ _ rest (by decide) rfl,
    fun pieces => by rw [join?]⟩

/-- A string between quotes is scanned as its characters. -/
theorem scanString_quoted (cs rest : List Char) :
    ∃ pieces, scanString (cs.flatMap escaped ++ '"' :: rest) = some (pieces, rest) ∧
      join? pieces = some cs := by
  induction cs with
  | nil => exact ⟨[], by rw [List.flatMap_nil, List.nil_append, scanString], by rw [join?]⟩
  | cons c cs ih =>
    obtain ⟨piece, hscan, hjoin⟩ := scanString_escaped c
    obtain ⟨pieces, hrest, hchars⟩ := ih
    refine ⟨piece :: pieces, ?_, ?_⟩
    · rw [List.flatMap_cons, List.append_assoc, hscan, hrest]
      rfl
    · rw [hjoin, hchars]
      rfl

/-- No word goes on here. -/
def Boundary (rest : List Char) : Prop :=
  ∀ c, rest.head? = some c → isWordChar c = false

theorem boundary_nil : Boundary [] := by
  simp [Boundary]

theorem boundary_cons (c : Char) (rest : List Char) (h : isWordChar c = false) :
    Boundary (c :: rest) := by
  intro d hd
  rwa [← Option.some.inj hd]

theorem tokens_nil : tokens [] = some [] := by
  rw [tokens]

theorem tokens_quoted (s : String) (rest : List Char) (ts : List Token)
    (h : tokens rest = some ts) : tokens (quoted s ++ rest) = some (.text (some s) :: ts) := by
  -- the scan is known, so only one case of the match on it is left
  obtain ⟨pieces, hscan, hjoin⟩ := scanString_quoted s.toList rest
  have htext : quoted s ++ rest = '"' :: (s.toList.flatMap escaped ++ '"' :: rest) := by
    simp [quoted]
  rw [htext, tokens, if_neg (by decide), if_pos rfl]
  split
  · rename_i hnone
    exact absurd (hscan.symm.trans hnone) (Option.some_ne_none _)
  · rename_i pieces' rest' hsome
    obtain ⟨rfl, rfl⟩ := Prod.mk.inj (Option.some.inj (hscan.symm.trans hsome))
    rw [h, hjoin, Option.map_some, Option.map_some, String.ofList_toList]

/-- The characters of words are neither blanks nor quotes. -/
theorem not_blank_of_isWordChar (c : Char) (h : isWordChar c = true) :
    isBlank c = false ∧ c ≠ '"' := by
  constructor
  · rw [Bool.eq_false_iff]
    intro hc
    simp only [isBlank, Bool.or_eq_true, decide_eq_true_eq] at hc
    rcases hc with ((rfl | rfl) | rfl) | rfl <;> exact absurd h (by decide)
  · rintro rfl
    exact absurd h (by decide)

theorem tokens_word (cs rest : List Char) (v : Json) (ts : List Token) (hw : Word cs)
    (hs : scalar? cs = some v) (hr : Boundary rest) (h : tokens rest = some ts) :
    tokens (cs ++ rest) = some (.scalar v :: ts) := by
  obtain ⟨hne, hall⟩ := hw
  obtain ⟨c, cs, rfl⟩ := List.exists_cons_of_ne_nil hne
  have hc : isWordChar c = true := hall c List.mem_cons_self
  obtain ⟨hblank, hquote⟩ := not_blank_of_isWordChar c hc
  obtain ⟨htake, hdrop⟩ := span_append isWordChar cs rest
    (fun d hd => hall d (List.mem_cons_of_mem c hd)) hr
  rw [List.cons_append, tokens, if_neg (Bool.eq_false_iff.mp hblank), if_neg hquote, if_pos hc,
    htake, hs, hdrop, h]
  rfl

theorem tokens_mark (c : Char) (rest : List Char) (t : Token) (ts : List Token)
    (hc : mark? c = some t) (h : tokens rest = some ts) :
    tokens (c :: rest) = some (t :: ts) := by
  have hmark : isBlank c = false ∧ c ≠ '"' ∧ isWordChar c = false := by
    -- none of the six marks is a blank, a quote or a part of a word
    unfold mark? at hc
    split at hc
    all_goals first | decide | exact absurd hc (Option.some_ne_none t).symm
  rw [tokens, if_neg (Bool.eq_false_iff.mp hmark.1), if_neg hmark.2.1,
    if_neg (Bool.eq_false_iff.mp hmark.2.2), hc, h]
  rfl

mutual

/-- Everything in the value has a text of its own. -/
def writable : Json → Bool
  | .integer i => fitsWord i
  | .float x => x.isFinite
  | .array items => writableItems items
  | .object members => writableMembers members
  | .unreadable => false
  | _ => true

def writableItems : List Json → Bool
  | [] => true
  | v :: rest => writable v && writableItems rest

def writableMembers : List (String × Json) → Bool
  | [] => true
  | (_, v) :: rest => writable v && writableMembers rest

end

mutual

/-- The tokens that stand for a value. -/
def tokenList : Json → List Token
  | .array items => .openBracket :: tokenItems items ++ [.closeBracket]
  | .object members => .openBrace :: tokenMembers members ++ [.closeBrace]
  | .string s => [.text (some s)]
  | v => [.scalar v]

def tokenItems : List Json → List Token
  | [] => []
  | [v] => tokenList v
  | v :: rest => tokenList v ++ .comma :: tokenItems rest

def tokenMembers : List (String × Json) → List Token
  | [] => []
  | [(k, v)] => .text (some k) :: .colon :: tokenList v
  | (k, v) :: rest => .text (some k) :: .colon :: tokenList v ++ .comma :: tokenMembers rest

end

mutual

/-- Reading the text without blanks token by token. -/
theorem tokens_compactText (v : Json) (rest : List Char) (ts : List Token)
    (hv : writable v = true) (hr : Boundary rest) (h : tokens rest = some ts) :
    tokens (compactText v ++ rest) = some (tokenList v ++ ts) := by
  cases v with
  | null => exact tokens_word _ rest .null ts scalar_null.1 scalar_null.2 hr h
  | bool b => exact tokens_word _ rest _ ts (scalar_bool b).1 (scalar_bool b).2 hr h
  | integer i =>
    obtain ⟨hw, hs⟩ := scalar_integer i hv
    exact tokens_word _ rest _ ts hw hs hr h
  | float x =>
    obtain ⟨hw, hs⟩ := scalar_float x hv
    have htext : compactText (.float x) = (numberLayout.text x).toList := if_pos hv
    rw [htext]
    exact tokens_word _ rest _ ts hw hs hr h
  | string s => exact tokens_quoted s rest ts h
  | array items =>
    simp only [compactText, tokenList, List.append_assoc, List.cons_append, List.nil_append]
    exact tokens_mark _ _ _ _ rfl (tokens_compactItems items _ _ hv (boundary_cons _ _ rfl)
      (tokens_mark _ _ _ _ rfl h))
  | object members =>
    simp only [compactText, tokenList, List.append_assoc, List.cons_append, List.nil_append]
    exact tokens_mark _ _ _ _ rfl (tokens_compactMembers members _ _ hv (boundary_cons _ _ rfl)
      (tokens_mark _ _ _ _ rfl h))
  | unreadable => exact absurd hv (by decide)

theorem tokens_compactItems (items : List Json) (rest : List Char) (ts : List Token)
    (hv : writableItems items = true) (hr : Boundary rest) (h : tokens rest = some ts) :
    tokens (compactItems items ++ rest) = some (tokenItems items ++ ts) := by
  match items with
  | [] => exact h
  | [v] =>
    rw [writableItems, Bool.and_eq_true] at hv
    rw [compactItems, tokenItems]
    exact tokens_compactText v rest ts hv.1 hr h
  | v :: w :: more =>
    rw [writableItems, Bool.and_eq_true] at hv
    -- a comma follows the first item, and no word goes on with it
    rw [compactItems.eq_3 _ _ (by simp), tokenItems.eq_3 _ _ (by simp), List.append_assoc,
      List.append_assoc]
    exact tokens_compactText v _ _ hv.1 (boundary_cons _ _ rfl) (tokens_mark _ _ _ _ rfl
      (tokens_compactItems (w :: more) rest ts hv.2 hr h))

theorem tokens_compactMembers (members : List (String × Json)) (rest : List Char)
    (ts : List Token) (hv : writableMembers members = true) (hr : Boundary rest)
    (h : tokens rest = some ts) :
    tokens (compactMembers members ++ rest) = some (tokenMembers members ++ ts) := by
  match members with
  | [] => exact h
  | [(k, v)] =>
    rw [writableMembers, Bool.and_eq_true] at hv
    rw [compactMembers, tokenMembers, List.append_assoc]
    exact tokens_quoted k _ _ (tokens_mark _ _ _ _ rfl (tokens_compactText v rest ts hv.1 hr h))
  | (k, v) :: w :: more =>
    rw [writableMembers, Bool.and_eq_true] at hv
    rw [compactMembers.eq_3 _ _ _ (by simp), tokenMembers.eq_3 _ _ _ (by simp)]
    simp only [List.append_assoc, List.cons_append]
    exact tokens_quoted k _ _ (tokens_mark _ _ _ _ rfl (tokens_compactText v _ _ hv.1
      (boundary_cons _ _ rfl) (tokens_mark _ _ _ _ rfl
        (tokens_compactMembers (w :: more) rest ts hv.2 hr h))))

end

theorem tokens_compact (v : Json) (hv : writable v = true) :
    tokens v.compact.toList = some (tokenList v) := by
  have h := tokens_compactText v [] [] hv boundary_nil tokens_nil
  rw [List.append_nil, List.append_nil] at h
  rw [compact, String.toList_ofList, h]

end Replanning.Json
