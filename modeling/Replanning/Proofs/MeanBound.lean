import Replanning.Proofs.Decisions
import Replanning.Proofs.Tally

/-! Packing by the mean may let a slot of one replication change more than the trust region allows.
What is kept instead is a bound on the sum of the largest changes of all replications. -/
namespace Replanning
open Finset

/-- The load has one footprint for each of `n` replications, without repeated slots. -/
structure Load.Everywhere (c : Load) (n : ℕ) : Prop where
  replications : (c.footprints.map Prod.fst).Perm (List.range n)
  slots : ∀ f ∈ c.footprints, f.2.Nodup

namespace Load.Everywhere

variable {c : Load} {n : ℕ}

theorem simple (h : c.Everywhere n) : c.Simple :=
  ⟨h.replications.nodup_iff.mpr List.nodup_range, h.slots⟩

theorem inRange (h : c.Everywhere n) : c.InRange n := by
  intro f hf
  have hmem := h.replications.mem_iff.mp (List.mem_map_of_mem hf)
  exact List.mem_range.mp hmem

theorem length_eq (h : c.Everywhere n) : c.footprints.length = n := by
  have hlen := h.replications.length_eq
  rwa [List.length_map, List.length_range] at hlen

end Load.Everywhere

/-- The slots of a replication are those of its only footprint. -/
theorem Load.Simple.slots_eq {c : Load} (h : c.Simple) (f : ℕ × List Slot)
    (hf : f ∈ c.footprints) : c.slots f.1 = f.2 := by
  obtain ⟨front, back, hsplit⟩ := List.append_of_mem hf
  have hnodup := h.replications
  rw [hsplit, List.map_append, List.map_cons, List.nodup_middle, List.nodup_cons,
    List.mem_append] at hnodup
  have hother (gs : List (ℕ × List Slot)) (hg : f.1 ∉ gs.map Prod.fst) :
      gs.filter (·.1 = f.1) = [] := by
    rw [List.filter_eq_nil_iff]
    intro g hmem heq
    exact hg (of_decide_eq_true heq ▸ List.mem_map_of_mem hmem)
  rw [Load.slots, hsplit, List.filter_append, List.filter_cons, if_pos (decide_eq_true rfl),
    hother front fun hmem => hnodup.1 (Or.inl hmem), hother back fun hmem => hnodup.1 (Or.inr hmem)]
  exact List.append_nil f.2

/-- A sum over the footprints is a sum over the replications. -/
theorem Load.Everywhere.sum_eq {c : Load} {n : ℕ} (h : c.Everywhere n) (g : ℕ → List Slot → ℕ) :
    (c.footprints.map fun f => g f.1 f.2).sum = ∑ r ∈ range n, g r (c.slots r) := by
  have hrange : (c.footprints.map Prod.fst).toFinset = range n := by
    rw [List.toFinset_eq_of_perm _ _ h.replications, List.toFinset_range]
  rw [← hrange, List.sum_toFinset _ h.simple.replications, List.map_map]
  congr 1
  apply List.map_congr_left
  intro f hf
  rw [Function.comp_apply, h.simple.slots_eq f hf]

namespace LedgerRow

theorem maxChange_le_commit (row : LedgerRow) (slots : List Slot) :
    row.maxChange ≤ (row.commit slots).maxChange := by
  induction slots generalizing row with
  | nil => exact le_rfl
  | cons s rest ih => exact (le_max_left _ _).trans (ih (row.add s))

/-- What has been counted of some slots does not exceed what all of them lead to. -/
theorem maxChange_commit_mono (row : LedgerRow) (slots slots' : List Slot) (h : slots <+: slots') :
    (row.commit slots).maxChange ≤ (row.commit slots').maxChange := by
  obtain ⟨more, rfl⟩ := h
  rw [commit, commit, List.foldl_append]
  exact maxChange_le_commit _ more

end LedgerRow

namespace Ledger

/-- Beyond the last replication nothing changes. -/
theorem maxChange_of_length_le (l : Ledger) (r : ℕ) (h : l.rows.length ≤ r) : l.maxChange r = 0 := by
  rw [maxChange, row, List.getD_eq_default _ _ h]
  rfl

/-- The largest changes of `n` replications together are within `n` times a bound. -/
structure MeanWithin (l : Ledger) (n t : ℕ) : Prop where
  sound : l.Sound
  length : l.rows.length = n
  total : ∑ r ∈ range n, l.maxChange r ≤ n * t

theorem empty_meanWithin (n t : ℕ) : (empty n).MeanWithin n t := by
  refine ⟨empty_sound n, List.length_replicate, ?_⟩
  rw [sum_eq_zero fun r _ => maxChange_empty n r]
  exact Nat.zero_le _

theorem MeanWithin.maxChange_le {l : Ledger} {n t : ℕ} (h : l.MeanWithin n t) (r : ℕ) :
    l.maxChange r ≤ n * t := by
  by_cases hr : r < n
  · exact (single_le_sum (fun _ _ => Nat.zero_le _) (mem_range.mpr hr)).trans h.total
  · rw [l.maxChange_of_length_le r (h.length.le.trans (not_lt.mp hr))]
    exact Nat.zero_le _

/-- A load with slots passes the check by the mean exactly if the total stays within the bound when
it is accepted. -/
theorem MeanWithin.anticipated_le_iff {l : Ledger} {n : ℕ} {t : UInt32}
    (h : l.MeanWithin n t.toNat) (hn : n ≤ 2^20) (c : Load) (hc : c.Everywhere n)
    (hne : c.isInert = false) :
    l.anticipated .mean c ≤ t.toFloat ↔ ∑ r ∈ range n, (l.accept c).maxChange r ≤ n * t.toNat := by
  have hr : c.InRange l.rows.length := h.length.symm ▸ hc.inRange
  have htotal : (c.footprints.map fun f => l.anticipate f.1 f.2).sum =
      ∑ r ∈ range n, (l.accept c).maxChange r := by
    rw [hc.sum_eq]
    exact sum_congr rfl fun r _ => (l.maxChange_accept h.sound c hc.simple hr r).symm
  -- an acceptance raises every largest change by one at most, so that the total stays a double
  have hsmall : (c.footprints.map fun f => l.anticipate f.1 f.2).sum < 2^53 := by
    calc (c.footprints.map fun f => l.anticipate f.1 f.2).sum
        = ∑ r ∈ range n, l.anticipate r (c.slots r) := hc.sum_eq _
      _ ≤ ∑ r ∈ range n, (l.maxChange r + 1) :=
        sum_le_sum fun r _ => LedgerRow.anticipate_le_succ _ (h.sound r) _ _ le_rfl
      _ = ∑ r ∈ range n, l.maxChange r + n := by
        rw [sum_add_distrib, sum_const, card_range, smul_eq_mul, mul_one]
      _ ≤ n * t.toNat + n := Nat.add_le_add_right h.total n
      _ = n * (t.toNat + 1) := (Nat.mul_succ n t.toNat).symm
      _ ≤ 2^20 * 2^32 := Nat.mul_le_mul hn t.toNat_lt
      _ < 2^53 := by decide
  have hlen : (c.footprints.map fun f => l.anticipate f.1 f.2).length = n := by
    rw [List.length_map, hc.length_eq]
  have hfoot : (c.footprints.map fun f => l.anticipate f.1 f.2) ≠ [] := by
    intro hnil
    rw [List.map_eq_nil_iff] at hnil
    rw [Load.isInert, hnil] at hne
    exact absurd hne (by decide)
  have hmean := combine_mean_le_iff _ t hfoot (hlen.le.trans hn) hsmall
  rwa [hlen, htotal] at hmean

end Ledger

namespace PackerConfig

/-- The ledgers that a pass goes through: one behind every candidate, and while an accepted one is
being counted, one behind every slot. -/
inductive Passes (config : PackerConfig) (t : UInt32) : Ledger → List Load → Ledger → Prop
  | start (l : Ledger) (cs : List Load) : Passes config t l cs l
  | counting (l : Ledger) (c : Load) (cs : List Load) (front back : List (ℕ × List Slot)) (r : ℕ)
      (slots rest : List Slot) (h : (config.step t l c).1.verdict = .accepted)
      (hsplit : c.footprints = front ++ (r, slots ++ rest) :: back) :
      Passes config t l (c :: cs) ((l.commitAll front).commit r slots)
  | step (l : Ledger) (c : Load) (cs : List Load) (p : Ledger)
      (h : Passes config t (config.step t l c).2 cs p) : Passes config t l (c :: cs) p

variable (config : PackerConfig) (t : UInt32)

/-- A pass ends with one of them. -/
theorem passes_steps (l : Ledger) (cs : List Load) :
    config.Passes t l cs (config.steps t l cs).2 := by
  induction cs generalizing l with
  | nil => exact .start l []
  | cons c rest ih => exact .step l c rest _ (ih (config.step t l c).2)

/-- What has been counted of a load for a replication is a part of what it names there. -/
theorem counted_slots (front back : List (ℕ × List Slot)) (r : ℕ) (slots rest : List Slot) (r' : ℕ) :
    ((front ++ [(r, slots)]).filter (·.1 = r')).flatMap Prod.snd <+:
      ((front ++ (r, slots ++ rest) :: back).filter (·.1 = r')).flatMap Prod.snd := by
  rw [List.filter_append, List.filter_append, List.flatMap_append, List.flatMap_append,
    List.prefix_append_right_inj, List.filter_cons, List.filter_cons]
  by_cases hr : r = r'
  · rw [if_pos (decide_eq_true hr), if_pos (decide_eq_true hr), List.flatMap_cons,
      List.flatMap_cons, List.append_assoc]
    exact (List.prefix_append_right_inj slots).mpr List.nil_prefix
  · rw [if_neg (by simpa)]
    exact List.nil_prefix

variable {config t} {l : Ledger} {n : ℕ} {c : Load}

/-- An accepted load keeps the total within the bound. -/
theorem accept_meanWithin (hm : config.aggregation = .mean) (hn : n ≤ 2^20)
    (h : l.MeanWithin n t.toNat) (hc : c.Everywhere n)
    (hv : (config.step t l c).1.verdict = .accepted) : (l.accept c).MeanWithin n t.toNat := by
  have hr : c.InRange l.rows.length := h.length.symm ▸ hc.inRange
  refine ⟨l.accept_sound h.sound c hr, (l.length_accept c).trans h.length, ?_⟩
  obtain ⟨_, hstep⟩ | ⟨_, ⟨hinert, _⟩ | ⟨hinert, ⟨hfit, _⟩ | ⟨_, hstep⟩⟩⟩ := config.step_cases t l c
  · rw [hstep] at hv
    cases hv
  -- without slots nothing is counted, and so nothing has been checked
  · have hsame : ∀ r ∈ range n, (l.accept c).maxChange r = l.maxChange r := by
      intro r _
      rw [l.maxChange_accept h.sound c hc.simple hr r, slots_of_isInert c hinert r]
      rfl
    rw [sum_congr rfl hsame]
    exact h.total
  · rwa [hm, h.anticipated_le_iff hn c hc hinert] at hfit
  · rw [hstep] at hv
    cases hv

/-- One decision keeps the total within the bound. -/
theorem step_meanWithin (hm : config.aggregation = .mean) (hn : n ≤ 2^20)
    (h : l.MeanWithin n t.toNat) (hc : c.Everywhere n) :
    (config.step t l c).2.MeanWithin n t.toNat := by
  have haccept := accept_meanWithin hm hn h hc
  obtain ⟨_, hstep⟩ | ⟨_, ⟨_, hstep⟩ | ⟨_, ⟨_, hstep⟩ | ⟨_, hstep⟩⟩⟩ := config.step_cases t l c
  · rwa [hstep]
  · rwa [hstep]
  · rw [hstep] at haccept ⊢
    exact haccept rfl
  · rwa [hstep]

/-- While an accepted load is being counted, the total is on its way to the one that was checked. -/
theorem counting_meanWithin (h : l.MeanWithin n t.toNat) (hc : c.Everywhere n)
    (haccept : (l.accept c).MeanWithin n t.toNat) (front back : List (ℕ × List Slot)) (r : ℕ)
    (slots rest : List Slot) (hsplit : c.footprints = front ++ (r, slots ++ rest) :: back) :
    ((l.commitAll front).commit r slots).MeanWithin n t.toNat := by
  have hcount : (l.commitAll front).commit r slots = l.commitAll (front ++ [(r, slots)]) := by
    rw [Ledger.commitAll, Ledger.commitAll, List.foldl_append]
    rfl
  have hr : c.InRange l.rows.length := h.length.symm ▸ hc.inRange
  have hrange : ∀ f ∈ front ++ [(r, slots)], f.1 < l.rows.length := by
    intro f hf
    rcases List.mem_append.mp hf with hf | hf
    · exact hr f (hsplit ▸ List.mem_append_left _ hf)
    · rw [List.mem_singleton.mp hf]
      exact hr (r, slots ++ rest) (hsplit ▸ List.mem_append_right _ List.mem_cons_self)
  rw [hcount]
  refine ⟨?_, (l.length_commitAll _).trans h.length, ?_⟩
  · intro r'
    rw [l.row_commitAll _ hrange]
    exact LedgerRow.commit_sound _ (h.sound r') _
  · have hrow (r' : ℕ) : (l.commitAll (front ++ [(r, slots)])).maxChange r' ≤
        (l.accept c).maxChange r' := by
      rw [Ledger.maxChange, Ledger.maxChange, l.row_commitAll _ hrange, l.row_accept c hr,
        Load.slots, hsplit]
      exact LedgerRow.maxChange_commit_mono _ _ _ (counted_slots front back r slots rest r')
    exact (sum_le_sum fun r' _ => hrow r').trans haccept.total

/-- At every point of a pass the total is within the bound. -/
theorem passes_meanWithin (hm : config.aggregation = .mean) (hn : n ≤ 2^20) {cs : List Load}
    {p : Ledger} (hp : config.Passes t l cs p) (h : l.MeanWithin n t.toNat)
    (hc : ∀ c ∈ cs, c.Everywhere n) : p.MeanWithin n t.toNat := by
  induction hp with
  | start => exact h
  | counting l c cs front back r slots rest hv hsplit =>
    have hc' := hc c List.mem_cons_self
    exact counting_meanWithin h hc' (accept_meanWithin hm hn h hc' hv) front back r slots rest hsplit
  | step l c cs p _ ih =>
    obtain ⟨hc', hrest⟩ := List.forall_mem_cons.mp hc
    exact ih (step_meanWithin hm hn h hc') hrest

/-- Within a trust region of zero the accepted loads are those without slots. -/
theorem accepted_zero_iff (hm : config.aggregation = .mean) (hn : n ≤ 2^20)
    (h : l.MeanWithin n (0 : UInt32).toNat) (hc : c.Everywhere n)
    (hs : (config.step 0 l c).1.verdict ≠ .rejectedNegativeGap) :
    (config.step 0 l c).1.verdict = .accepted ↔ c.isInert = true := by
  constructor
  · intro hv
    by_contra hinert
    obtain ⟨f, hf, hne⟩ : ∃ f ∈ c.footprints, ¬f.2.isEmpty = true := by
      simpa [Load.isInert] using hinert
    obtain ⟨s, hmem⟩ := List.exists_mem_of_ne_nil f.2 (by rwa [List.isEmpty_iff] at hne)
    -- a slot that is counted makes the total positive
    have hle := (accept_meanWithin hm hn h hc hv).maxChange_le f.1
    rw [l.maxChange_accept h.sound c hc.simple (h.length.symm ▸ hc.inRange), Ledger.anticipate,
      LedgerRow.anticipate_le_iff, hc.simple.slots_eq f hf] at hle
    have hcount := hle.2 s hmem
    rw [UInt32.toNat_zero, mul_zero] at hcount
    omega
  · intro hinert
    obtain ⟨_, hstep⟩ | ⟨_, ⟨_, hstep⟩ | ⟨hne, _⟩⟩ := config.step_cases 0 l c
    · rw [hstep] at hs
      exact absurd rfl hs
    · rw [hstep]
      rfl
    · exact absurd hinert (Bool.eq_false_iff.mp hne)

variable (config t n)

/-- The guarantee of the mean: with a footprint on each of `n` replications the largest changes add up
to at most `n` times the trust region, at every point of a pass. Within a trust region of zero exactly
the candidates without slots are accepted that are not refused for their sign. -/
theorem pack_mean_within (hm : config.aggregation = .mean) (hn : n ≤ 2^20) (cs : List Load)
    (hc : ∀ c ∈ cs, c.Everywhere n) :
    ∃ decisions ledger, config.pack cs t n = .ok (decisions, ledger) ∧
      decisions.length = cs.length ∧ config.Passes t (.empty n) cs ledger ∧
      (∀ l, config.Passes t (.empty n) cs l →
        ∑ r ∈ range n, l.maxChange r ≤ n * t.toNat ∧ ∀ r s, l.change r s ≤ n * t.toNat) ∧
      ∀ (i : ℕ) (c : Load) (d : Decision), cs[i]? = some c → decisions[i]? = some d →
        (d.verdict = .rejectedNegativeGap ↔ config.admitNegativeGaps = false ∧ c.score < 0.0) ∧
        (t = 0 → d.verdict ≠ .rejectedNegativeGap → (d.verdict = .accepted ↔ c.isInert = true)) := by
  have hempty := Ledger.empty_meanWithin n t.toNat
  refine ⟨_, _, config.pack_ok t n cs fun c hmem => (hc c hmem).inRange,
    config.length_steps t _ cs, config.passes_steps t _ cs, ?_, ?_⟩
  · intro l hl
    have hl' := passes_meanWithin hm hn hl hempty hc
    exact ⟨hl'.total, fun r s => (l.change_le_maxChange hl'.sound r s).trans (hl'.maxChange_le r)⟩
  · intro i c d hi hd
    rw [config.getElem?_steps, hi, Option.map_some, Option.some.injEq] at hd
    subst hd
    have hsigned := config.step_signed t (config.steps t (.empty n) (cs.take i)).2 c
    rw [Decision.Signed, (Prod.mk.inj (config.step_decides t _ c)).2] at hsigned
    refine ⟨hsigned, ?_⟩
    rintro rfl hs
    have hbehind := passes_meanWithin hm hn (config.passes_steps 0 (.empty n) (cs.take i)) hempty
      fun c hmem => hc c (List.mem_of_mem_take hmem)
    exact accepted_zero_iff hm hn hbehind (hc c (List.mem_of_getElem? hi)) hs

/-- Two loads that change one replication only, one without slots, one that comes to a full link, and
one without slots that would lose. -/
def lopsided : List Load :=
  let link : Slot := ⟨"link", 7⟩
  let node : Slot := ⟨"node", 1⟩
  [⟨"a", 5.0, [(0, [link]), (1, [])]⟩, ⟨"b", 4.0, [(1, []), (0, [link])]⟩,
    ⟨"c", 3.0, [(0, []), (1, [])]⟩, ⟨"d", 2.0, [(0, [link]), (1, [node])]⟩,
    ⟨"e", -1.0, [(0, []), (1, [])]⟩]

/-- With a trust region of one, the link of the first replication changes twice. -/
theorem pack_mean_within_lopsided :
    (∀ c ∈ lopsided, c.Everywhere 2) ∧
    (∃ decisions ledger, pack {} lopsided 1 2 = .ok (decisions, ledger) ∧
      decisions.map Decision.verdict =
        [.accepted, .accepted, .accepted, .rejectedInfeasible, .rejectedNegativeGap] ∧
      ledger.change 0 ⟨"link", 7⟩ = 2 ∧ ∑ r ∈ range 2, ledger.maxChange r ≤ 2 * 1) ∧
    ∃ decisions ledger, pack {} lopsided 0 2 = .ok (decisions, ledger) ∧
      ∀ d, decisions[2]? = some d → d.verdict = .accepted := by
  have hc : ∀ c ∈ lopsided, c.Everywhere 2 := by
    have hdec : ∀ c ∈ lopsided, (c.footprints.map Prod.fst).Perm (List.range 2) ∧
        ∀ f ∈ c.footprints, f.2.Nodup := by
      decide
    intro c hmem
    exact ⟨(hdec c hmem).1, (hdec c hmem).2⟩
  refine ⟨hc, ?_, ?_⟩
  · obtain ⟨decisions, ledger, hpack, _, hlast, hpoints, _⟩ :=
      pack_mean_within {} 1 2 rfl (by decide) lopsided hc
    have hrun : (pack {} lopsided 1 2).map
        (fun p => (p.1.map Decision.verdict, p.2.change 0 ⟨"link", 7⟩)) = .ok
          ([.accepted, .accepted, .accepted, .rejectedInfeasible, .rejectedNegativeGap], 2) := by
      decide +kernel
    simp only [hpack, Except.map, Except.ok.injEq, Prod.mk.injEq] at hrun
    exact ⟨decisions, ledger, hpack, hrun.1, hrun.2, (hpoints ledger hlast).1⟩
  · obtain ⟨decisions, ledger, hpack, _, _, _, hverdicts⟩ :=
      pack_mean_within {} 0 2 rfl (by decide) lopsided hc
    refine ⟨decisions, ledger, hpack, ?_⟩
    intro d hd
    obtain ⟨hsign, hzero⟩ := hverdicts 2 _ d rfl hd
    refine (hzero rfl (mt hsign.mp ?_)).mpr (by decide)
    rintro ⟨_, hscore⟩
    exact absurd hscore (by decide +kernel)

end PackerConfig
end Replanning
