import Replanning.Packing
import Replanning.Proofs.Binary64.Rounding
import Replanning.Proofs.Ledger
import Replanning.Proofs.Outcome

namespace Replanning

theorem max_ofCount (m n : ℕ) (hm : m < 2^53) (hn : n < 2^53) :
    max (ofCount m) (ofCount n) = ofCount (max m n) := by
  change (if ofCount m ≤ ofCount n then ofCount n else ofCount m) = _
  by_cases h : m ≤ n
  · rw [if_pos ((ofCount_le_iff m n hm hn).mpr h), max_eq_right h]
  · rw [if_neg (mt (ofCount_le_iff m n hm hn).mp h), max_eq_left (Nat.le_of_not_le h)]

theorem foldl_max_ofCount (changes : List ℕ) (m : ℕ) (hm : m < 2^53)
    (hc : ∀ n ∈ changes, n < 2^53) :
    (changes.map ofCount).foldl max (ofCount m) = ofCount (changes.foldl max m) := by
  induction changes generalizing m with
  | nil => rfl
  | cons n rest ih =>
    have hn := hc n List.mem_cons_self
    rw [List.map_cons, List.foldl_cons, List.foldl_cons, max_ofCount m n hm hn]
    exact ih (max m n) (max_lt hm hn) fun k hk => hc k (List.mem_cons_of_mem _ hk)

theorem foldl_max_le_iff (changes : List ℕ) (m n : ℕ) :
    changes.foldl max m ≤ n ↔ m ≤ n ∧ ∀ k ∈ changes, k ≤ n := by
  induction changes generalizing m with
  | nil => simp only [List.foldl_nil, List.not_mem_nil, false_implies, implies_true, and_true]
  | cons k rest ih => rw [List.foldl_cons, ih, max_le_iff, List.forall_mem_cons, and_assoc]

/-- The worst of some changes is within a bound exactly if all of them are. -/
theorem combine_worst_le_iff (changes : List ℕ) (t : UInt32) (hc : ∀ n ∈ changes, n < 2^53) :
    Aggregate.worst.combine changes ≤ t.toFloat ↔ ∀ n ∈ changes, n ≤ t.toNat := by
  have hz : (0.0 : Float) = ofCount 0 := by rfl
  have ht : t.toNat < 2^53 := t.toNat_lt.trans (by decide)
  have hmax : changes.foldl max 0 < 2^53 :=
    Nat.lt_of_le_pred (by decide) ((foldl_max_le_iff changes 0 (2^53-1)).mpr
      ⟨by decide, fun n hn => Nat.le_pred_of_lt (hc n hn)⟩)
  have hw : Aggregate.worst.combine changes = ofCount (changes.foldl max 0) := by
    cases changes with
    | nil => exact hz
    | cons n rest =>
      rw [← foldl_max_ofCount _ 0 (by decide) hc, ← hz]
      rfl
  rw [hw, toFloat_eq_ofCount, ofCount_le_iff _ _ hmax ht, foldl_max_le_iff]
  exact and_iff_right (Nat.zero_le _)

/-- The mean of some changes is within a bound exactly if their sum is within as many times the
bound: neither the sum nor the mean is rounded across it. -/
theorem combine_mean_le_iff (changes : List ℕ) (t : UInt32) (hne : changes ≠ [])
    (hlen : changes.length ≤ 2^20) (hsum : changes.sum < 2^53) :
    Aggregate.mean.combine changes ≤ t.toFloat ↔ changes.sum ≤ changes.length * t.toNat := by
  have hempty : ¬changes.isEmpty = true := by rwa [List.isEmpty_iff]
  have hm : Aggregate.mean.combine changes =
      sum (changes.map ofCount) / ofCount changes.length := by
    rw [Aggregate.combine, if_neg hempty]
  rw [hm, toFloat_eq_ofCount, sum_ofCount changes hne hsum]
  exact ofCount_div_le_iff _ _ _ hsum (List.length_pos_iff.mpr hne) hlen t.toNat_lt

/-- The aggregate is not weaker than a bound on every one of `count` replications. -/
def Aggregate.Strict (how : Aggregate) (count : ℕ) : Prop :=
  how = .worst ∨ count = 1

theorem le_of_combine_le (how : Aggregate) (changes : List ℕ) (t : UInt32)
    (hs : how.Strict changes.length) (hc : ∀ n ∈ changes, n < 2^53)
    (h : how.combine changes ≤ t.toFloat) : ∀ n ∈ changes, n ≤ t.toNat := by
  rcases hs with rfl | hl
  · exact (combine_worst_le_iff changes t hc).mp h
  · cases how with
    | worst => exact (combine_worst_le_iff changes t hc).mp h
    | mean =>
      -- of one replication the mean is the change itself
      obtain ⟨n, rfl⟩ := List.length_eq_one_iff.mp hl
      have hn := hc n (List.mem_singleton.mpr rfl)
      have hmean := combine_mean_le_iff [n] t (List.cons_ne_nil n []) Nat.one_le_two_pow
        (by rwa [List.sum_singleton])
      rw [List.sum_singleton, List.length_singleton, one_mul] at hmean
      intro k hk
      rw [List.mem_singleton.mp hk]
      exact hmean.mp h

/-- A candidate that names each of its replications once, and each slot once for a replication. -/
structure Load.Simple (c : Load) : Prop where
  replications : (c.footprints.map Prod.fst).Nodup
  slots : ∀ f ∈ c.footprints, f.2.Nodup

/-- Every replication that a load names is among the first `n`. -/
def Load.InRange (n : ℕ) (c : Load) : Prop :=
  ∀ f ∈ c.footprints, f.1 < n

/-- The slots that a load touches in a replication. -/
def Load.slots (c : Load) (r : ℕ) : List Slot :=
  (c.footprints.filter (·.1 = r)).flatMap Prod.snd

theorem mem_slots (c : Load) (r : ℕ) (s : Slot) :
    s ∈ c.slots r ↔ ∃ f ∈ c.footprints, f.1 = r ∧ s ∈ f.2 := by
  simp only [Load.slots, List.mem_flatMap, List.mem_filter, decide_eq_true_eq, and_assoc]

/-- A simple load names no slot of a replication twice. -/
theorem Load.Simple.nodup_slots {c : Load} (h : c.Simple) (r : ℕ) : (c.slots r).Nodup := by
  refine List.nodup_flatMap.mpr ⟨fun f hf => h.slots f (List.mem_of_mem_filter hf), ?_⟩
  -- there is one footprint at most for the replication
  have hfst : c.footprints.Pairwise fun f g => f.1 ≠ g.1 := List.pairwise_map.mp h.replications
  refine (hfst.filter _).imp_of_mem ?_
  intro f g hf hg hne
  have hf' := of_decide_eq_true (List.mem_filter.mp hf).2
  have hg' := of_decide_eq_true (List.mem_filter.mp hg).2
  exact absurd (hf'.trans hg'.symm) hne

namespace Ledger

def commitAll (l : Ledger) (footprints : List (ℕ × List Slot)) : Ledger :=
  footprints.foldl (fun l f => l.commit f.1 f.2) l

theorem length_commitAll (l : Ledger) (footprints : List (ℕ × List Slot)) :
    (l.commitAll footprints).rows.length = l.rows.length := by
  induction footprints generalizing l with
  | nil => rfl
  | cons f rest ih => exact (ih (l.commit f.1 f.2)).trans (length_commit l f.1 f.2)

/-- Every replication gets the footprints that name it, in their order. -/
theorem row_commitAll (l : Ledger) (footprints : List (ℕ × List Slot))
    (hr : ∀ f ∈ footprints, f.1 < l.rows.length) (r : ℕ) :
    (l.commitAll footprints).row r =
      (l.row r).commit ((footprints.filter (·.1 = r)).flatMap Prod.snd) := by
  induction footprints generalizing l with
  | nil => rfl
  | cons f rest ih =>
    obtain ⟨hf, hrest⟩ := List.forall_mem_cons.mp hr
    have hstep := ih (l.commit f.1 f.2) ((length_commit l f.1 f.2).symm ▸ hrest)
    rw [List.filter_cons]
    by_cases he : f.1 = r
    · rw [if_pos (decide_eq_true he), List.flatMap_cons, LedgerRow.commit, List.foldl_append]
      subst he
      rw [row_commit_self l f.1 f.2 hf] at hstep
      exact hstep
    · rw [if_neg (ne_true_of_eq_false (decide_eq_false he))]
      rw [row_commit_ne l f.1 r f.2 he] at hstep
      exact hstep

theorem length_accept (l : Ledger) (c : Load) : (l.accept c).rows.length = l.rows.length :=
  length_commitAll l c.footprints

theorem row_accept (l : Ledger) (c : Load) (hr : c.InRange l.rows.length) (r : ℕ) :
    (l.accept c).row r = (l.row r).commit (c.slots r) :=
  row_commitAll l c.footprints hr r

theorem accept_sound (l : Ledger) (h : l.Sound) (c : Load) (hr : c.InRange l.rows.length) :
    (l.accept c).Sound := by
  intro r
  rw [row_accept l c hr r]
  exact LedgerRow.commit_sound _ (h r) _

/-- An accepted candidate leads every replication to the anticipated change. -/
theorem maxChange_accept (l : Ledger) (h : l.Sound) (c : Load) (hc : c.Simple)
    (hr : c.InRange l.rows.length) (r : ℕ) :
    (l.accept c).maxChange r = l.anticipate r (c.slots r) := by
  rw [maxChange, row_accept l c hr r]
  exact LedgerRow.maxChange_commit _ (h r) _ (hc.nodup_slots r)

end Ledger

namespace PackerConfig

/-- What one decision can be: a refusal for the sign, an acceptance of a load without slots, or the
outcome of the check, which alone changes the ledger. -/
theorem step_cases (config : PackerConfig) (t : UInt32) (l : Ledger) (c : Load) :
    (!config.admitNegativeGaps && c.score < 0.0) = true ∧
      config.step t l c = (c.decide .rejectedNegativeGap none, l) ∨
    ¬(!config.admitNegativeGaps && c.score < 0.0) = true ∧
      (c.isInert = true ∧ config.step t l c = (c.decide .accepted none, l) ∨
        c.isInert = false ∧
          (l.anticipated config.aggregation c ≤ t.toFloat ∧
              config.step t l c =
                (c.decide .accepted (some (l.anticipated config.aggregation c)), l.accept c) ∨
            ¬l.anticipated config.aggregation c ≤ t.toFloat ∧
              config.step t l c =
                (c.decide .rejectedInfeasible (some (l.anticipated config.aggregation c)), l))) := by
  unfold step
  split_ifs with hneg hinert
  · exact Or.inl ⟨hneg, rfl⟩
  · exact Or.inr ⟨hneg, Or.inl ⟨hinert, rfl⟩⟩
  refine Or.inr ⟨hneg, Or.inr ⟨Bool.eq_false_iff.mpr hinert, ?_⟩⟩
  dsimp only
  split_ifs with hfit
  · exact Or.inl ⟨hfit, rfl⟩
  · exact Or.inr ⟨hfit, rfl⟩

/-- What one decision keeps: the rows stay sound and within the trust region. -/
theorem step_within (config : PackerConfig) (t : UInt32) (l : Ledger) (c : Load) (h : l.Sound)
    (hl : ∀ r, l.maxChange r ≤ t.toNat) (hc : c.Simple)
    (hr : c.InRange l.rows.length) (hs : config.aggregation.Strict c.footprints.length) :
    (config.step t l c).2.Sound ∧ (∀ r, (config.step t l c).2.maxChange r ≤ t.toNat) ∧
      (config.step t l c).2.rows.length = l.rows.length := by
  obtain ⟨_, hstep⟩ | ⟨_, ⟨_, hstep⟩ | ⟨_, ⟨hfit, hstep⟩ | ⟨_, hstep⟩⟩⟩ := config.step_cases t l c
  · rw [hstep]
    exact ⟨h, hl, rfl⟩
  · rw [hstep]
    exact ⟨h, hl, rfl⟩
  · have hfit' : ∀ f ∈ c.footprints, l.anticipate f.1 f.2 ≤ t.toNat := by
      refine List.forall_mem_map.mp (le_of_combine_le config.aggregation _ t ?_ ?_ hfit)
      · rwa [List.length_map]
      -- the counts so far are below `2 ^ 32`, and an anticipation is one more at most
      · rw [List.forall_mem_map]
        intro f _
        have hb := LedgerRow.anticipate_le_succ _ (h f.1) f.2 t.toNat (hl f.1)
        have ht := t.toNat_lt
        change (l.row f.1).anticipate f.2 < 2^53
        omega
    rw [hstep]
    refine ⟨l.accept_sound h c hr, fun r => ?_, l.length_accept c⟩
    -- every slot that the candidate touches stands in a footprint that has been tested
    rw [l.maxChange_accept h c hc hr r, Ledger.anticipate, LedgerRow.anticipate_le_iff]
    refine ⟨hl r, fun s hs => ?_⟩
    obtain ⟨f, hf, rfl, hmem⟩ := (mem_slots c r s).mp hs
    exact ((LedgerRow.anticipate_le_iff _ _ _).mp (hfit' f hf)).2 s hmem
  · rw [hstep]
    exact ⟨h, hl, rfl⟩

theorem steps_within (config : PackerConfig) (t : UInt32) (l : Ledger) (cs : List Load)
    (h : l.Sound) (hl : ∀ r, l.maxChange r ≤ t.toNat)
    (hc : ∀ c ∈ cs, c.Simple ∧ c.InRange l.rows.length ∧
      config.aggregation.Strict c.footprints.length) :
    (config.steps t l cs).2.Sound ∧ ∀ r, (config.steps t l cs).2.maxChange r ≤ t.toNat := by
  induction cs generalizing l with
  | nil => exact ⟨h, hl⟩
  | cons c rest ih =>
    -- the number of rows stays, so the candidates that follow are still in range
    obtain ⟨hsimple, hrange, hstrict⟩ := hc c List.mem_cons_self
    obtain ⟨h', hl', hlen⟩ := step_within config t l c h hl hsimple hrange hstrict
    apply ih (config.step t l c).2 h' hl'
    intro d hd
    rw [hlen]
    exact hc d (List.mem_cons_of_mem _ hd)

theorem steps_cons (config : PackerConfig) (t : UInt32) (l : Ledger) (c : Load) (cs : List Load) :
    config.steps t l (c :: cs) =
      ((config.step t l c).1 :: (config.steps t (config.step t l c).2 cs).1,
        (config.steps t (config.step t l c).2 cs).2) :=
  rfl

/-- A pass over two lists is a pass over the second one behind a pass over the first. -/
theorem steps_append (config : PackerConfig) (t : UInt32) (l : Ledger) (cs ds : List Load) :
    config.steps t l (cs ++ ds) =
      ((config.steps t l cs).1 ++ (config.steps t (config.steps t l cs).2 ds).1,
        (config.steps t (config.steps t l cs).2 ds).2) := by
  induction cs generalizing l with
  | nil => rfl
  | cons c rest ih =>
    rw [List.cons_append, steps_cons, steps_cons, ih]
    rfl

theorem length_steps (config : PackerConfig) (t : UInt32) (l : Ledger) (cs : List Load) :
    (config.steps t l cs).1.length = cs.length := by
  induction cs generalizing l with
  | nil => rfl
  | cons c rest ih => exact congrArg (· + 1) (ih (config.step t l c).2)

/-- The decision on a load is made behind the loads in front of it. -/
theorem getElem?_steps (config : PackerConfig) (t : UInt32) (l : Ledger) (cs : List Load) (i : ℕ) :
    (config.steps t l cs).1[i]? =
      cs[i]?.map fun c => (config.step t (config.steps t l (cs.take i)).2 c).1 := by
  induction cs generalizing l i with
  | nil => rfl
  | cons c rest ih =>
    cases i with
    | zero => rfl
    | succ i => exact ih (config.step t l c).2 i

theorem checkRange_ok (replications : ℕ) (cs : List Load)
    (h : ∀ c ∈ cs, c.InRange replications) :
    checkRange replications cs = .ok () := by
  induction cs with
  | nil => rfl
  | cons c rest ih =>
    have hc : c.outOfRange? replications = none := by
      rw [Load.outOfRange?, Option.map_eq_none_iff, List.find?_eq_none]
      intro f hf
      simpa using h c List.mem_cons_self f hf
    rw [checkRange, hc]
    exact ih fun d hd => h d (List.mem_cons_of_mem _ hd)

/-- A pass over candidates in range returns. -/
theorem pack_ok (config : PackerConfig) (t : UInt32) (replications : ℕ) (cs : List Load)
    (h : ∀ c ∈ cs, c.InRange replications) :
    config.pack cs t replications = .ok (config.steps t (.empty replications) cs) := by
  rw [pack, checkRange_ok replications cs h]
  rfl

/-- What a pass returns are the steps from an empty ledger. -/
theorem pack_eq_ok (config : PackerConfig) (t : UInt32) (replications : ℕ) (cs : List Load)
    (packed : List Decision × Ledger) (h : config.pack cs t replications = .ok packed) :
    packed = config.steps t (.empty replications) cs := by
  obtain ⟨_, _, h⟩ := (bind_eq_ok _ _ _).mp h
  exact (Except.ok.inj h).symm

/-- A pass over simple candidates in range returns, and its ledger stays within the bound. -/
theorem pack_within (config : PackerConfig) (t : UInt32) (replications : ℕ) (cs : List Load)
    (hc : ∀ c ∈ cs, c.Simple ∧ c.InRange replications ∧
      config.aggregation.Strict c.footprints.length) :
    ∃ decisions ledger, config.pack cs t replications = .ok (decisions, ledger) ∧
      ledger.Sound ∧ ∀ r, ledger.maxChange r ≤ t.toNat := by
  have hlen : (Ledger.empty replications).rows.length = replications := List.length_replicate
  have hzero (r : ℕ) : (Ledger.empty replications).maxChange r ≤ t.toNat :=
    (Ledger.maxChange_empty replications r).le.trans (Nat.zero_le _)
  have hw := steps_within config t _ cs (Ledger.empty_sound replications) hzero (by rwa [hlen])
  exact ⟨(config.steps t (.empty replications) cs).1, (config.steps t (.empty replications) cs).2,
    config.pack_ok t replications cs fun c hcs => (hc c hcs).2.1, hw⟩

end PackerConfig
end Replanning
