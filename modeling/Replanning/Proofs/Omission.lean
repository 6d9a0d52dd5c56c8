import Replanning.Proofs.Recount

namespace Replanning

/-- What is left of some decided loads when refused ones are taken out, as many as one likes. -/
inductive OmitsRefused : List (Load × Decision) → List (Load × Decision) → Prop
  | nil : OmitsRefused [] []
  | keep (p : Load × Decision) {kept decided : List (Load × Decision)} :
      OmitsRefused kept decided → OmitsRefused (p :: kept) (p :: decided)
  | drop (p : Load × Decision) {kept decided : List (Load × Decision)} :
      p.2.verdict ≠ .accepted → OmitsRefused kept decided → OmitsRefused kept (p :: decided)

namespace OmitsRefused

theorem sublist {kept decided : List (Load × Decision)} (h : OmitsRefused kept decided) :
    kept.Sublist decided := by
  induction h with
  | nil => exact .slnil
  | keep p _ ih => exact ih.cons_cons p
  | drop p _ _ ih => exact ih.cons p

/-- The accepted loads alone are one such rest, and the smallest one. -/
theorem filter_accepted (decided : List (Load × Decision)) :
    OmitsRefused (decided.filter (·.2.verdict = .accepted)) decided := by
  induction decided with
  | nil => exact .nil
  | cons p rest ih =>
    by_cases hp : p.2.verdict = .accepted
    · rw [List.filter_cons, if_pos (decide_eq_true hp)]
      exact .keep p ih
    · rw [List.filter_cons, if_neg (mt of_decide_eq_true hp)]
      exact .drop p hp ih

end OmitsRefused

/-- The decisions that accept are those on the accepted loads. -/
theorem Decision.filter_accepted (cs : List Load) (ds : List Decision)
    (h : ds.length = cs.length) :
    ((cs.zip ds).filter (·.2.verdict = .accepted)).map Prod.snd =
      ds.filter (·.verdict = .accepted) := by
  conv_rhs => rw [← List.map_snd_zip h.le, List.filter_map]
  rfl

namespace PackerConfig

variable (config : PackerConfig) (t : UInt32)

/-- Only an acceptance changes the ledger. -/
theorem ledger_step_of_refused (l : Ledger) (c : Load)
    (h : (config.step t l c).1.verdict ≠ .accepted) : (config.step t l c).2 = l := by
  obtain ⟨_, hstep⟩ | ⟨_, ⟨_, hstep⟩ | ⟨_, ⟨_, hstep⟩ | ⟨_, hstep⟩⟩⟩ := config.step_cases t l c
  · rw [hstep]
  · rw [hstep]
  · rw [hstep] at h
    exact absurd rfl h
  · rw [hstep]

/-- A pass over the rest takes the decisions of the whole pass. -/
theorem steps_of_omits (l : Ledger) (cs : List Load) (kept : List (Load × Decision))
    (h : OmitsRefused kept (cs.zip (config.steps t l cs).1)) :
    config.steps t l (kept.map Prod.fst) = (kept.map Prod.snd, (config.steps t l cs).2) := by
  induction cs generalizing l kept with
  | nil =>
    cases h
    rfl
  | cons c rest ih =>
    rw [steps_cons, List.zip_cons_cons] at h
    rw [steps_cons]
    cases h with
    | keep _ h => rw [List.map_cons, steps_cons, ih _ _ h, List.map_cons]
    -- behind a refusal the pass goes on with the ledger that was there before it
    | drop _ hrefused h =>
      rw [config.ledger_step_of_refused t l c hrefused] at h ⊢
      exact ih l kept h

/-- A pass returns only if all replications are in range. -/
theorem inRange_of_pack (n : ℕ) (cs : List Load) (packed : List Decision × Ledger)
    (h : config.pack cs t n = .ok packed) : ∀ c ∈ cs, c.InRange n := by
  by_contra hout
  simp only [not_forall] at hout
  obtain ⟨c, hc, hout⟩ := hout
  obtain ⟨d, r, _, herror⟩ := checkRange_error n cs ⟨c, hc, hout⟩
  rw [pack, herror] at h
  cases h

/-- Refused loads leave no trace. If a pass returns, then so does every pass over what is left of its
loads when any of the refused ones are taken out: it takes the same decision on each of them, verdict
and anticipated change alike, and its ledger is the same. The accepted loads alone are all accepted. -/
theorem pack_omits_refused (n : ℕ) (cs : List Load) (decisions : List Decision) (ledger : Ledger)
    (h : config.pack cs t n = .ok (decisions, ledger)) :
    decisions.length = cs.length ∧
    (∀ kept, OmitsRefused kept (cs.zip decisions) →
      config.pack (kept.map Prod.fst) t n = .ok (kept.map Prod.snd, ledger)) ∧
    config.pack (Load.accepted cs decisions) t n =
      .ok (decisions.filter (·.verdict = .accepted), ledger) := by
  have hrange := config.inRange_of_pack t n cs _ h
  obtain ⟨rfl, rfl⟩ := Prod.mk.inj (config.pack_eq_ok t n cs _ h)
  have hlength := config.length_steps t (.empty n) cs
  have hkept : ∀ kept, OmitsRefused kept (cs.zip (config.steps t (.empty n) cs).1) →
      config.pack (kept.map Prod.fst) t n =
        .ok (kept.map Prod.snd, (config.steps t (.empty n) cs).2) := by
    intro kept hk
    rw [← config.steps_of_omits t (.empty n) cs kept hk]
    apply config.pack_ok
    intro c hc
    obtain ⟨p, hp, rfl⟩ := List.mem_map.mp hc
    exact hrange p.1 (List.of_mem_zip (hk.sublist.subset hp)).1
  refine ⟨hlength, hkept, ?_⟩
  rw [← Decision.filter_accepted cs _ hlength]
  exact hkept _ (OmitsRefused.filter_accepted _)

/-- Without the load that would lose, the other ones are decided as before, the infeasible one among
them. -/
theorem pack_omits_refused_repeats :
    ∃ decisions ledger, pack {} repeats 2 2 = .ok (decisions, ledger) ∧
      decisions.map Decision.verdict =
        [.accepted, .rejectedNegativeGap, .accepted, .rejectedInfeasible, .accepted] ∧
      pack {} (repeats.eraseIdx 1) 2 2 = .ok (decisions.eraseIdx 1, ledger) ∧
      pack {} (Load.accepted repeats decisions) 2 2 =
        .ok (decisions.filter (·.verdict = .accepted), ledger) := by
  have hin : ∀ c ∈ repeats, c.InRange 2 := by
    unfold Load.InRange
    decide
  have hverdicts : (steps {} 2 (.empty 2) repeats).1.map Decision.verdict =
      [.accepted, .rejectedNegativeGap, .accepted, .rejectedInfeasible, .accepted] := by
    decide +kernel
  have hpack := pack_ok {} 2 2 repeats hin
  rcases hsteps : steps {} 2 (.empty 2) repeats with ⟨decisions, ledger⟩
  rw [hsteps] at hpack hverdicts
  obtain ⟨_, homit, haccepted⟩ := pack_omits_refused {} 2 2 repeats decisions ledger hpack
  refine ⟨decisions, ledger, hpack, hverdicts, ?_, haccepted⟩
  -- the second of the five decisions is a refusal
  obtain ⟨a, _, rfl, _, hrest⟩ := List.map_eq_cons_iff.mp hverdicts
  obtain ⟨b, _, rfl, hb, hrest⟩ := List.map_eq_cons_iff.mp hrest
  obtain ⟨c, _, rfl, _, hrest⟩ := List.map_eq_cons_iff.mp hrest
  obtain ⟨d, _, rfl, _, hrest⟩ := List.map_eq_cons_iff.mp hrest
  obtain ⟨e, _, rfl, _, hrest⟩ := List.map_eq_cons_iff.mp hrest
  obtain rfl := List.map_eq_nil_iff.mp hrest
  have hrefused : b.verdict ≠ .accepted := by
    rw [hb]
    exact nofun
  exact homit _ (.keep (_, a) (.drop (_, b) hrefused (.keep (_, c) (.keep (_, d)
    (.keep (_, e) .nil)))))

end PackerConfig
end Replanning
