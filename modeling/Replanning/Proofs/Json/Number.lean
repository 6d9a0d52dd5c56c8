import Mathlib
import Replanning.Json.Printer
import Replanning.Json.Token
import Replanning.Proofs.Decimal

namespace Replanning.Json

theorem digitsValue_append (cs ds : List Char) :
    digitsValue (cs ++ ds) = digitsValue cs * 10^ds.length + digitsValue ds := by
  have h : digitsValue (cs ++ ds) = Nat.ofDigitChars 10 ds (digitsValue cs) := by
    simp only [digitsValue, Nat.ofDigitChars, List.foldl_append]
  rw [h, Nat.ofDigitChars_eq_ofDigitChars_zero, mul_comm]
  rfl

theorem digitsValue_toDigits (n : ℕ) : digitsValue (Nat.toDigits 10 n) = n :=
  Nat.ofDigitChars_ten_toDigits

theorem digitsValue_zeros (k : ℕ) : digitsValue (List.replicate k '0') = 0 := by
  have h : digitsValue (List.replicate k '0') = 10^k * 0 := Nat.ofDigitChars_replicate_zero
  rw [h, mul_zero]

theorem isDigit_toDigits (n : ℕ) : ∀ c ∈ Nat.toDigits 10 n, c.isDigit = true := fun _ hc =>
  Nat.isDigit_of_mem_toDigits (by decide) (by decide) hc

/-- The digits of a positive number do not start with zero. -/
theorem head_toDigits_ne (n : ℕ) (hn : n ≠ 0) : (Nat.toDigits 10 n).head? ≠ some '0' := by
  induction n using Nat.strong_induction_on with
  | _ n ih =>
    -- a number below ten is its own digit, and any other one starts like its tenth
    by_cases h : n < 10
    · rw [Nat.toDigits_of_lt_base h]
      interval_cases n <;> first | exact absurd rfl hn | decide
    · rw [Nat.toDigits_of_base_le (by decide) (by omega), List.head?_append,
        Option.or_of_isSome]
      · exact ih (n / 10) (by omega) (by omega)
      · exact List.isSome_head?.mpr Nat.toDigits_ne_nil

/-- The digits of a number are a numeral of their own: nothing superfluous in front. -/
def Plain (whole : List Char) : Prop :=
  whole ≠ [] ∧ (∀ c ∈ whole, c.isDigit = true) ∧ (whole.head? = some '0' → whole.length ≤ 1)

theorem plain_toDigits (n : ℕ) : Plain (Nat.toDigits 10 n) := by
  refine ⟨Nat.toDigits_ne_nil, isDigit_toDigits n, fun h => ?_⟩
  by_cases hn : n = 0
  · rw [hn, Nat.toDigits_zero]
    rfl
  · exact absurd h (head_toDigits_ne n hn)

/-- What fills a test ends where something follows that fails it. -/
theorem span_append (p : Char → Bool) (cs rest : List Char) (h : ∀ c ∈ cs, p c = true)
    (hr : ∀ c, rest.head? = some c → p c = false) :
    (cs ++ rest).takeWhile p = cs ∧ (cs ++ rest).dropWhile p = rest := by
  rw [List.takeWhile_append_of_pos h, List.dropWhile_append_of_pos h]
  cases rest with
  | nil => exact ⟨List.append_nil _, rfl⟩
  | cons c rest =>
    have hc : ¬ p c = true := Bool.eq_false_iff.mp (hr c rfl)
    rw [List.takeWhile_cons_of_neg hc, List.dropWhile_cons_of_neg hc, List.append_nil]
    exact ⟨rfl, rfl⟩

/-- A numeral from behind its whole part. -/
def tail? (negative : Bool) (whole : List Char) : List Char → Option Json
  | [] => some (integerOf negative whole)
  | '.' :: rest =>
    let fraction := rest.takeWhile Char.isDigit
    if fraction.isEmpty then none
    else
      match rest.dropWhile Char.isDigit with
      | [] => some (floatOf negative whole fraction 0)
      | rest => (power? rest).map (floatOf negative whole fraction)
  | rest => (power? rest).map (floatOf negative whole [])

theorem unsigned_of_plain (negative : Bool) (whole rest : List Char) (hw : Plain whole)
    (hr : ∀ c, rest.head? = some c → c.isDigit = false) :
    unsigned? negative (whole ++ rest) = tail? negative whole rest := by
  obtain ⟨hne, hdigits, hlead⟩ := hw
  obtain ⟨htake, hdrop⟩ := span_append Char.isDigit whole rest hdigits hr
  -- neither of the two faults of a whole part
  have hok : (whole.isEmpty || (decide (whole.head? = some '0') && decide (1 < whole.length))) =
      false := by
    rw [Bool.or_eq_false_iff, Bool.and_eq_false_iff, List.isEmpty_eq_false_iff,
      decide_eq_false_iff_not, decide_eq_false_iff_not]
    refine ⟨hne, ?_⟩
    by_cases h0 : whole.head? = some '0'
    · exact Or.inr (Nat.not_lt.mpr (hlead h0))
    · exact Or.inl h0
  rw [unsigned?, htake, hdrop]
  exact if_neg (Bool.eq_false_iff.mp hok)

theorem unsigned_whole (negative : Bool) (whole : List Char) (hw : Plain whole) :
    unsigned? negative whole = some (integerOf negative whole) := by
  have h := unsigned_of_plain negative whole [] hw (by simp)
  rwa [List.append_nil] at h

theorem unsigned_fraction (negative : Bool) (whole fraction : List Char) (hw : Plain whole)
    (hne : fraction ≠ []) (hf : ∀ c ∈ fraction, c.isDigit = true) :
    unsigned? negative (whole ++ '.' :: fraction) = some (floatOf negative whole fraction 0) := by
  obtain ⟨htake, hdrop⟩ := span_append Char.isDigit fraction [] hf (by simp)
  rw [List.append_nil] at htake hdrop
  rw [unsigned_of_plain negative whole _ hw (by rintro c hc; rw [← Option.some.inj hc]; rfl), tail?,
    htake, hdrop]
  exact if_neg (by simpa using hne)

def mark (e : ℤ) : List Char :=
  (if e < 0 then ['e', '-'] else ['e', '+']) ++ Nat.toDigits 10 e.natAbs

theorem power_mark (e : ℤ) : power? (mark e) = some e := by
  have hdigits : digits? (Nat.toDigits 10 e.natAbs) = some e.natAbs := by
    rw [digits?, digitsValue_toDigits, if_pos]
    rw [Bool.and_eq_true, Bool.not_eq_true', List.isEmpty_eq_false_iff, List.all_eq_true]
    exact ⟨Nat.toDigits_ne_nil, isDigit_toDigits _⟩
  unfold mark
  split_ifs with h
  · simp only [List.cons_append, List.nil_append, power?, exponent?, hdigits]
    change some (-(e.natAbs : ℤ)) = _
    congr 1
    omega
  · simp only [List.cons_append, List.nil_append, power?, exponent?, hdigits]
    change some (e.natAbs : ℤ) = _
    congr 1
    omega

theorem mark_eq_cons (e : ℤ) : ∃ rest, mark e = 'e' :: rest := by
  unfold mark
  split_ifs
  · exact ⟨_, rfl⟩
  · exact ⟨_, rfl⟩

/-- A numeral with an exponent, and with a fraction if that is not empty. -/
theorem unsigned_power (negative : Bool) (whole fraction : List Char) (hw : Plain whole)
    (hf : ∀ c ∈ fraction, c.isDigit = true) (e : ℤ) :
    unsigned? negative (whole ++ ((if fraction = [] then [] else '.' :: fraction) ++ mark e)) =
      some (floatOf negative whole fraction e) := by
  obtain ⟨rest, hmark⟩ := mark_eq_cons e
  have hpower := power_mark e
  rw [hmark] at hpower ⊢
  split_ifs with hne
  · rw [List.nil_append, unsigned_of_plain negative whole _ hw
      (by rintro c hc; rw [← Option.some.inj hc]; rfl)]
    change (power? ('e' :: rest)).map _ = _
    rw [hpower, hne]
    rfl
  · obtain ⟨htake, hdrop⟩ := span_append Char.isDigit fraction ('e' :: rest) hf
      (by rintro c hc; rw [← Option.some.inj hc]; rfl)
    rw [List.cons_append, unsigned_of_plain negative whole _ hw
      (by rintro c hc; rw [← Option.some.inj hc]; rfl), tail?, htake, hdrop]
    apply (if_neg (by simpa using hne)).trans
    change (power? ('e' :: rest)).map _ = _
    rw [hpower]
    rfl

/-- The double of a numeral with a sign, if that is a number. -/
def ofDecimal (negative : Bool) (d : Decimal) : Json :=
  if d.toFloat.isFinite then .float (if negative then -d.toFloat else d.toFloat) else .unreadable

theorem floatOf_eq (negative : Bool) (whole fraction : List Char) (e : ℤ) (d : Decimal)
    (h : (digitsValue (whole ++ fraction) : ℚ) * 10^(e - fraction.length) = d.value) :
    floatOf negative whole fraction e = ofDecimal negative d := by
  have hd := Decimal.toFloat_congr ⟨digitsValue (whole ++ fraction), e - fraction.length⟩ d h
  simp only [floatOf, ofDecimal, hd]

theorem head_take (cs : List Char) (k : ℕ) (hk : 0 < k) : (cs.take k).head? = cs.head? := by
  rw [List.head?_take, if_neg (Nat.ne_of_gt hk)]

/-- The leading digits of a positive number are a numeral. -/
theorem plain_take (n k : ℕ) (hn : n ≠ 0) (hk : 0 < k) : Plain ((Nat.toDigits 10 n).take k) := by
  refine ⟨?_, fun c hc => isDigit_toDigits n c (List.mem_of_mem_take hc), fun h => ?_⟩
  · rw [Ne, List.take_eq_nil_iff, not_or]
    exact ⟨Nat.ne_of_gt hk, Nat.toDigits_ne_nil⟩
  · rw [head_take _ k hk] at h
    exact absurd h (head_toDigits_ne n hn)

theorem isDigit_zeros (k : ℕ) : ∀ c ∈ List.replicate k '0', c.isDigit = true := by
  intro c hc
  rw [List.eq_of_mem_replicate hc]
  rfl

theorem isDigit_append (cs ds : List Char) (hc : ∀ c ∈ cs, c.isDigit = true)
    (hd : ∀ c ∈ ds, c.isDigit = true) : ∀ c ∈ cs ++ ds, c.isDigit = true := by
  intro c h
  rcases List.mem_append.mp h with h | h
  · exact hc c h
  · exact hd c h

/-- Digits with zeros behind them are a numeral, unless they are a zero themselves. -/
theorem plain_zeros (n k : ℕ) (h : n ≠ 0 ∨ k = 0) :
    Plain (Nat.toDigits 10 n ++ List.replicate k '0') := by
  refine ⟨fun hnil => Nat.toDigits_ne_nil (List.append_eq_nil_iff.mp hnil).1,
    isDigit_append _ _ (isDigit_toDigits n) (isDigit_zeros k), fun h0 => ?_⟩
  rw [List.head?_append_of_ne_nil _ Nat.toDigits_ne_nil] at h0
  rcases h with h | h
  · exact absurd h0 (head_toDigits_ne n h)
  · have hlen := (plain_toDigits n).2.2 h0
    rw [List.length_append, List.length_replicate]
    omega

/-- A numeral without an exponent: digits, and others behind a point if there are any. -/
structure Positional (whole fraction cs : List Char) (d : Decimal) : Prop where
  text : cs = whole ++ if fraction = [] then [] else '.' :: fraction
  plain : Plain whole
  digits : ∀ c ∈ fraction, c.isDigit = true
  value : Decimal.value ⟨digitsValue (whole ++ fraction), -fraction.length⟩ = d.value

/-- A whole number, with the zeros of its exponent. -/
theorem positional_zeros (pointZero : Bool) (n k : ℕ) (h : n ≠ 0 ∨ k = 0) :
    Positional (Nat.toDigits 10 n ++ List.replicate k '0') (if pointZero then ['0'] else [])
      (Layout.positionalText pointZero (Nat.toDigits 10 n) k) ⟨n, k⟩ := by
  have htext : Layout.positionalText pointZero (Nat.toDigits 10 n) k = Nat.toDigits 10 n ++
      List.replicate k '0' ++ if pointZero then ['.', '0'] else [] := by
    rw [Layout.positionalText, if_pos (Int.natCast_nonneg k), Int.toNat_natCast]
  have hzeros (j : ℕ) : digitsValue (Nat.toDigits 10 n ++ List.replicate j '0') = n * 10^j := by
    rw [digitsValue_append, digitsValue_toDigits, digitsValue_zeros, List.length_replicate, add_zero]
  cases pointZero with
  | false =>
    refine ⟨htext, plain_zeros n k h, nofun, ?_⟩
    rw [if_neg Bool.false_ne_true, List.append_nil, hzeros, Decimal.value, Decimal.value]
    simp
  | true =>
    refine ⟨htext, plain_zeros n k h, isDigit_zeros 1, ?_⟩
    have hten : (10 : ℚ)^(k+1) * 10^(-1 : ℤ) = 10^k := by
      rw [pow_succ, zpow_neg_one, mul_assoc, mul_inv_cancel₀ (by norm_num), mul_one]
    rw [if_pos rfl, List.append_assoc, ← List.replicate_one, ← List.replicate_add, hzeros,
      List.length_replicate, Decimal.value, Decimal.value, zpow_natCast, ← hten]
    push_cast
    exact mul_assoc _ _ _

theorem positional_point (pointZero : Bool) (n k : ℕ) (hn : n ≠ 0) (hk : 0 < k)
    (hlen : k < (Nat.toDigits 10 n).length) :
    Positional ((Nat.toDigits 10 n).take ((Nat.toDigits 10 n).length - k))
      ((Nat.toDigits 10 n).drop ((Nat.toDigits 10 n).length - k))
      (Layout.positionalText pointZero (Nat.toDigits 10 n) (-k)) ⟨n, -k⟩ := by
  have hdrop : ((Nat.toDigits 10 n).drop ((Nat.toDigits 10 n).length - k)).length = k := by
    rw [List.length_drop]
    omega
  refine ⟨?_, plain_take n _ hn (by omega),
    fun c hc => isDigit_toDigits n c (List.mem_of_mem_drop hc), ?_⟩
  · rw [Layout.positionalText, if_neg (by omega), neg_neg, Int.toNat_natCast,
      if_neg (List.ne_nil_of_length_pos (hk.trans_eq hdrop.symm))]
    exact if_pos hlen
  · rw [List.take_append_drop, digitsValue_toDigits, hdrop]

/-- A number below one, with zeros between the point and its digits. -/
theorem positional_pointZeros (pointZero : Bool) (n k : ℕ)
    (hlen : (Nat.toDigits 10 n).length ≤ k) :
    Positional ['0'] (List.replicate (k - (Nat.toDigits 10 n).length) '0' ++ Nat.toDigits 10 n)
      (Layout.positionalText pointZero (Nat.toDigits 10 n) (-k)) ⟨n, -k⟩ := by
  have hpos : 0 < (Nat.toDigits 10 n).length := Nat.length_toDigits_pos
  have hcount : (List.replicate (k - (Nat.toDigits 10 n).length) '0' ++
      Nat.toDigits 10 n).length = k := by
    rw [List.length_append, List.length_replicate]
    omega
  refine ⟨?_, ⟨by simp, isDigit_zeros 1, fun _ => le_rfl⟩,
    isDigit_append _ _ (isDigit_zeros _) (isDigit_toDigits n), ?_⟩
  · rw [Layout.positionalText, if_neg (by omega), neg_neg, Int.toNat_natCast,
      if_neg (List.append_ne_nil_of_right_ne_nil _ Nat.toDigits_ne_nil)]
    exact if_neg (Nat.not_lt.mpr hlen)
  · rw [hcount, ← List.append_assoc, digitsValue_append, digitsValue_toDigits,
      ← List.replicate_one, ← List.replicate_add, digitsValue_zeros, zero_mul, zero_add]

/-- The text of a numeral without an exponent. -/
theorem exists_positional (pointZero : Bool) (n : ℕ) (e : ℤ) (h : n ≠ 0 ∨ e = 0) :
    ∃ whole fraction,
      Positional whole fraction (Layout.positionalText pointZero (Nat.toDigits 10 n) e) ⟨n, e⟩ ∧
      (pointZero = true → fraction ≠ []) := by
  by_cases he : 0 ≤ e
  · obtain ⟨k, rfl⟩ := Int.eq_ofNat_of_zero_le he
    refine ⟨_, _, positional_zeros pointZero n k (by omega), ?_⟩
    rintro rfl
    exact List.cons_ne_nil '0' []
  · obtain ⟨k, hk⟩ := Int.eq_ofNat_of_zero_le (by omega : 0 ≤ -e)
    obtain rfl : e = -(k : ℤ) := by omega
    by_cases hlen : k < (Nat.toDigits 10 n).length
    · refine ⟨_, _, positional_point pointZero n k (by omega) (by omega) hlen, fun _ => ?_⟩
      apply List.ne_nil_of_length_pos
      rw [List.length_drop]
      omega
    · exact ⟨_, _, positional_pointZeros pointZero n k (Nat.le_of_not_lt hlen),
        fun _ => List.append_ne_nil_of_right_ne_nil _ Nat.toDigits_ne_nil⟩

/-- A numeral without an exponent is read as the double of its value. -/
theorem unsigned_positional (negative : Bool) (n : ℕ) (e : ℤ) (h : n ≠ 0 ∨ e = 0) :
    unsigned? negative (Layout.positionalText true (Nat.toDigits 10 n) e) =
      some (ofDecimal negative ⟨n, e⟩) := by
  obtain ⟨whole, fraction, hparts, hne⟩ := exists_positional true n e h
  have hvalue := hparts.value
  rw [Decimal.value, ← zero_sub] at hvalue
  rw [hparts.text, if_neg (hne rfl), unsigned_fraction negative whole fraction hparts.plain (hne rfl)
    hparts.digits, floatOf_eq negative whole fraction 0 ⟨n, e⟩ hvalue]

theorem unsigned_scientific (negative : Bool) (n : ℕ) (hn : n ≠ 0) (e : ℤ) :
    unsigned? negative
        (Layout.scientificText (Nat.toDigits 10 n) (e + (Nat.toDigits 10 n).length - 1)) =
      some (ofDecimal negative ⟨n, e⟩) := by
  have hlen : 0 < (Nat.toDigits 10 n).length := Nat.length_toDigits_pos
  generalize hl : e + ((Nat.toDigits 10 n).length : ℤ) - 1 = leading
  -- the leading digit, the other digits behind a point if there are any, and the exponent
  have htext : Layout.scientificText (Nat.toDigits 10 n) leading =
      (Nat.toDigits 10 n).take 1 ++ ((if (Nat.toDigits 10 n).drop 1 = [] then []
        else '.' :: (Nat.toDigits 10 n).drop 1) ++ mark leading) := by
    have hdrop : (Nat.toDigits 10 n).drop 1 = [] ↔ (Nat.toDigits 10 n).length ≤ 1 :=
      List.drop_eq_nil_iff
    simp only [Layout.scientificText, mark, hdrop, List.append_assoc]
  rw [htext, unsigned_power negative _ _ (plain_take n 1 hn Nat.one_pos)
    (fun c hc => isDigit_toDigits n c (List.mem_of_mem_drop hc)), floatOf_eq negative _ _ _ ⟨n, e⟩]
  rw [List.take_append_drop, digitsValue_toDigits, List.length_drop, Decimal.value]
  have hexponent : leading - ((Nat.toDigits 10 n).length - 1 : ℕ) = e := by omega
  rw [hexponent]

theorem unsigned_numeralText (negative : Bool) (d : Decimal) (hd : d.digits ≠ 0) :
    unsigned? negative (numberLayout.numeralText d) = some (ofDecimal negative d) := by
  unfold Layout.numeralText
  dsimp only
  split_ifs
  · exact unsigned_positional negative d.digits d.exponent (Or.inl hd)
  · exact unsigned_scientific negative d.digits hd d.exponent

/-- A numeral without a sign is a word that is no name. -/
theorem scalar_of_unsigned (cs : List Char) (v : Json) (h : unsigned? false cs = some v) :
    scalar? cs = some v := by
  -- a name or a sign in front is not the beginning of a numeral
  unfold scalar?
  split
  · exact absurd h (Option.some_ne_none v).symm
  · exact absurd h (Option.some_ne_none v).symm
  · exact absurd h (Option.some_ne_none v).symm
  · exact absurd h (Option.some_ne_none v).symm
  · exact h

/-- The text of a word: characters of words only, and at least one. -/
def Word (cs : List Char) : Prop :=
  cs ≠ [] ∧ ∀ c ∈ cs, isWordChar c = true

theorem scalar_null : Word (scalarText .null) ∧ scalar? (scalarText .null) = some .null := by
  have htext : scalarText .null = ['n', 'u', 'l', 'l'] := by
    change "null".toList = _
    decide
  rw [htext]
  exact ⟨⟨List.cons_ne_nil _ _, List.all_eq_true.mp (by decide)⟩, rfl⟩

theorem scalar_bool (b : Bool) :
    Word (scalarText (.bool b)) ∧ scalar? (scalarText (.bool b)) = some (.bool b) := by
  cases b with
  | false =>
    have htext : scalarText (.bool false) = ['f', 'a', 'l', 's', 'e'] := by
      change "false".toList = _
      decide
    rw [htext]
    exact ⟨⟨List.cons_ne_nil _ _, List.all_eq_true.mp (by decide)⟩, rfl⟩
  | true =>
    have htext : scalarText (.bool true) = ['t', 'r', 'u', 'e'] := by
      change "true".toList = _
      decide
    rw [htext]
    exact ⟨⟨List.cons_ne_nil _ _, List.all_eq_true.mp (by decide)⟩, rfl⟩

theorem isWordChar_of_isDigit (c : Char) (h : c.isDigit = true) : isWordChar c = true := by
  simp [isWordChar, Char.isAlphanum, h]

theorem ne_nil_of_unsigned (negative : Bool) (cs : List Char) (v : Json)
    (h : unsigned? negative cs = some v) : cs ≠ [] := by
  rintro rfl
  simp [unsigned?] at h

theorem wordChars_positional (whole fraction cs : List Char) (d : Decimal)
    (h : Positional whole fraction cs d) : ∀ c ∈ cs, isWordChar c = true := by
  intro c hc
  rw [h.text] at hc
  rcases List.mem_append.mp hc with hc | hc
  · exact isWordChar_of_isDigit c (h.plain.2.1 c hc)
  · split_ifs at hc
    · exact absurd hc List.not_mem_nil
    · rcases List.mem_cons.mp hc with rfl | hc
      · decide
      · exact isWordChar_of_isDigit c (h.digits c hc)

theorem wordChars_scientific (n : ℕ) (leading : ℤ) :
    ∀ c ∈ Layout.scientificText (Nat.toDigits 10 n) leading, isWordChar c = true := by
  have hdigits (m : ℕ) (c : Char) (hc : c ∈ Nat.toDigits 10 m) : isWordChar c = true :=
    isWordChar_of_isDigit c (isDigit_toDigits m c hc)
  intro c hc
  simp only [Layout.scientificText, List.mem_append] at hc
  rcases hc with ((hc | hc) | hc) | hc
  · exact hdigits n c (List.mem_of_mem_take hc)
  · split_ifs at hc
    · exact absurd hc List.not_mem_nil
    · rcases List.mem_cons.mp hc with rfl | hc
      · decide
      · exact hdigits n c (List.mem_of_mem_drop hc)
  · split_ifs at hc <;> simp only [List.mem_cons, List.not_mem_nil, or_false] at hc <;>
      rcases hc with rfl | rfl <;> decide
  · exact hdigits _ c hc

theorem wordChars_numeralText (d : Decimal) (hd : d.digits ≠ 0) :
    ∀ c ∈ numberLayout.numeralText d, isWordChar c = true := by
  unfold Layout.numeralText
  dsimp only
  split_ifs
  · obtain ⟨_, _, h, _⟩ := exists_positional true d.digits d.exponent (Or.inl hd)
    exact wordChars_positional _ _ _ _ h
  · exact wordChars_scientific d.digits _

/-- The text of a finite double behind its sign. -/
theorem unsigned_body (negative : Bool) (p : ℕ) (hp : p < infinityPattern) :
    ∃ body, (∀ c ∈ body, isWordChar c = true) ∧
      unsigned? negative body = some (.float (ofPattern negative p)) ∧
      (if ofPattern negative p == 0.0 then
          Layout.positionalText numberLayout.pointZero ['0'] 0
        else numberLayout.numeralText (Decimal.shortest numberLayout.tie (ofPattern negative p).abs))
        = body := by
  have hread (d : Decimal) (hd : d.toFloat = ofPattern false p) :
      ofDecimal negative d = .float (ofPattern negative p) := by
    rw [ofDecimal, hd, if_pos (isFinite_ofPattern false p hp), neg_ofPattern false p hp.le]
    cases negative <;> rfl
  rw [abs_ofPattern negative p hp.le]
  -- zero has a text of its own, and its sign stands in front of that
  by_cases h0 : p = 0
  · obtain ⟨_, _, hzero, _⟩ := exists_positional true 0 0 (Or.inr rfl)
    refine ⟨Layout.positionalText true (Nat.toDigits 10 0) 0, wordChars_positional _ _ _ _ hzero,
      ?_, ?_⟩
    · rw [unsigned_positional negative 0 0 (Or.inr rfl), hread]
      rw [Decimal.toFloat_of_digits_zero _ rfl, h0]
      rfl
    · rw [if_pos ((ofPattern_eq_zero_iff negative p hp).mpr h0), Nat.toDigits_zero]
      rfl
  · have hne : ¬ (ofPattern negative p == 0.0) = true :=
      mt (ofPattern_eq_zero_iff negative p hp).mp h0
    have hdigits := Decimal.digits_shortest_ne_zero numberLayout.tie p hp h0
    refine ⟨_, wordChars_numeralText _ hdigits, ?_, if_neg hne⟩
    rw [unsigned_numeralText negative _ hdigits, hread]
    exact Decimal.toFloat_shortest _ p hp

/-- The text of a finite double is a word that is read as this double. -/
theorem scalar_float (x : Float) (hx : x.isFinite = true) :
    Word (numberLayout.text x).toList ∧
      scalar? (numberLayout.text x).toList = some (.float x) := by
  obtain ⟨negative, p, hp, rfl⟩ := exists_pattern x hx
  obtain ⟨body, hword, hread, hbody⟩ := unsigned_body negative p hp
  have hne := ne_nil_of_unsigned negative body _ hread
  rw [Layout.text, hbody, isNegative_ofPattern negative p hp.le, String.toList_ofList]
  cases negative with
  | false => exact ⟨⟨hne, hword⟩, scalar_of_unsigned body _ hread⟩
  | true =>
    refine ⟨⟨List.cons_ne_nil _ _, fun c hc => ?_⟩, hread⟩
    rcases List.mem_cons.mp hc with rfl | hc
    · decide
    · exact hword c hc

/-- The text of an integer that fits a word is a word that is read as this integer. -/
theorem scalar_integer (i : ℤ) (hi : fitsWord i = true) :
    Word (scalarText (.integer i)) ∧ scalar? (scalarText (.integer i)) = some (.integer i) := by
  have hword (c : Char) (hc : c ∈ Nat.toDigits 10 i.natAbs) : isWordChar c = true :=
    isWordChar_of_isDigit c (isDigit_toDigits _ c hc)
  have htext : scalarText (.integer i) =
      if i < 0 then '-' :: Nat.toDigits 10 i.natAbs else Nat.toDigits 10 i.natAbs := rfl
  rw [htext]
  split_ifs with h
  · refine ⟨⟨List.cons_ne_nil _ _, fun c hc => ?_⟩, ?_⟩
    · rcases List.mem_cons.mp hc with rfl | hc
      · decide
      · exact hword c hc
    · change unsigned? true (Nat.toDigits 10 i.natAbs) = _
      have hi' : -(i.natAbs : ℤ) = i := by omega
      have hn : i.natAbs ≠ 0 := by omega
      rw [unsigned_whole true _ (plain_toDigits _), integerOf, digitsValue_toDigits]
      simp only [↓reduceIte, hi', hi, hn, decide_false, Bool.and_false, Bool.not_false,
        Bool.and_true]
  · refine ⟨⟨Nat.toDigits_ne_nil, hword⟩, scalar_of_unsigned _ _ ?_⟩
    have hi' : (i.natAbs : ℤ) = i := by omega
    rw [unsigned_whole false _ (plain_toDigits _), integerOf, digitsValue_toDigits]
    simp only [Bool.false_eq_true, ↓reduceIte, hi', hi, Bool.false_and, Bool.not_false,
      Bool.and_true]

end Replanning.Json
