import Replanning.Proofs.Iteration

namespace Replanning

namespace PackerConfig

/-- The bound of a pass holds for every replication by itself: the worst change is taken, or no
candidate has more than one replication to take together. -/
def Tight (config : PackerConfig) (candidates : List Candidate) : Prop :=
  config.aggregation = .worst ∨ ∀ c ∈ candidates, c.eligible.length = 1

/-- The ledger of a decided ensemble stays within the trust region, slot by slot. -/
theorem select_within (config : PackerConfig) (e : Ensemble) (h : e.WellFormed)
    (selfExclusion : Bool) (ranked : List Candidate) (hr : ∀ c ∈ ranked, e.Scored selfExclusion c)
    (hs : config.Tight ranked) (t : UInt32) (s : RandomStream) :
    ∃ selection ledger, (Policy.trustRegion config).select e ranked t s = .ok (selection, s) ∧
      selection.ledger = some ledger ∧ ledger.Sound ∧ ∀ r, ledger.maxChange r ≤ t.toNat := by
  obtain ⟨loads, hloads, hall⟩ := e.loads_ok h selfExclusion config.countVacatedSlots ranked hr
  have hstrict : ∀ load ∈ loads, load.Simple ∧ (∀ f ∈ load.footprints, f.1 < e.replications) ∧
      config.aggregation.Strict load.footprints.length := by
    intro load hl
    obtain ⟨c, hc, hcarries⟩ := exists_of_mem_forall₂ _ _ _ hall load hl
    exact ⟨hcarries.simple, hcarries.range,
      hs.imp id fun hone => hcarries.length.trans (hone c hc)⟩
  obtain ⟨decisions, ledger, hpack, hsound, hbound⟩ :=
    config.pack_within t e.replications loads hstrict
  exact ⟨_, ledger, Policy.select_of_loads config e ranked t s loads _ hloads hpack, rfl, hsound,
    hbound⟩

end PackerConfig

namespace Ensemble

/-- What packing the ranked candidates returns: a ledger that keeps every slot of every replication
within the bound. -/
def Kept (e : Ensemble) (packer : PackerConfig) (ranked : List Candidate) (t : UInt32)
    (s : RandomStream) : Prop :=
  ∃ selection ledger, (Policy.trustRegion packer).select e ranked t s = .ok (selection, s) ∧
    selection.ledger = some ledger ∧ (∀ r slot, ledger.change r slot ≤ t.toNat) ∧
    ∀ r, ledger.maxChange r ≤ t.toNat

/-- Every candidate has one replication if there is one, or if there are two and every plan was made
for one of them. -/
theorem tight_of_few (e : Ensemble) (packer : PackerConfig) (selfExclusion : Bool)
    (candidates : List Candidate) (h : e.WellFormed)
    (hc : ∀ c ∈ candidates, e.Scored selfExclusion c)
    (hone : e.replications = 1 ∨ e.replications = 2 ∧ selfExclusion = true ∧
      ∀ a ∈ e.agents, a.generating.isSome = true) : packer.Tight candidates := by
  apply Or.inr
  intro c hmem
  obtain ⟨a, hat, _, heligible⟩ := hc c hmem
  have ha := List.mem_of_getElem? hat
  rw [heligible]
  exact eligible_length_one selfExclusion a.generating e.replications (h.agents a ha).generating
    (hone.imp id fun ⟨hr, hself, hsome⟩ => ⟨hr, hself, hsome a ha⟩)

theorem kept_of_validate (e : Ensemble) (he : e.validate = .ok ()) (packer : PackerConfig)
    (selfExclusion : Bool) (t : UInt32) (s : RandomStream) :
    ∃ est, e.estimate selfExclusion = .ok est ∧
      ((e.replications = 1 ∨ e.replications = 2 ∧ selfExclusion = true ∧
          ∀ a ∈ e.agents, a.generating.isSome = true) → packer.Tight (rank est.candidates s).1) ∧
      (packer.Tight (rank est.candidates s).1 →
        e.Kept packer (rank est.candidates s).1 t (rank est.candidates s).2) := by
  have h := e.wellFormed_of_validate he
  obtain ⟨est, hest, _, hall⟩ := e.estimate_ok selfExclusion he
  have hranked := e.scored_rank selfExclusion est.candidates s hall
  refine ⟨est, hest, e.tight_of_few packer selfExclusion _ h hranked, ?_⟩
  intro htight
  obtain ⟨selection, ledger, hselect, hledger, hsound, hbound⟩ :=
    packer.select_within e h selfExclusion _ hranked htight t (rank est.candidates s).2
  exact ⟨selection, ledger, hselect, hledger,
    fun r slot => (ledger.change_le_maxChange hsound r slot).trans (hbound r), hbound⟩

end Ensemble

namespace Engine

variable {σ : Type}

/-- The bound is tight on the candidates that the engine ranks. -/
def Tight (engine : Engine σ) (packer : PackerConfig) (e : Ensemble) : Prop :=
  ∀ est, e.estimate engine.config.selfExclusion = .ok est →
    packer.Tight (rank est.candidates engine.stream).1

/-- A decision of an engine keeps a ledger within the trust region in force. -/
theorem decide_within (engine : Engine σ) (packer : PackerConfig)
    (hp : engine.config.policy = .trustRegion packer) (e : Ensemble) (ht : engine.Tight packer e)
    (gaps : List Float) (selection : Selection) (stream : RandomStream)
    (hd : engine.decide e = .ok (gaps, selection, stream)) :
    ∃ ledger, selection.ledger = some ledger ∧
      ledger.overallMaxChange ≤ engine.controller.regime.trustRegion.toNat := by
  obtain ⟨_, est, hest, _, hselect⟩ := decide_eq_ok engine e gaps selection stream hd
  obtain ⟨hvalid, _⟩ := (e.estimate_eq_ok _ est).mp hest
  obtain ⟨est', hest', _, hkept⟩ := e.kept_of_validate hvalid packer engine.config.selfExclusion
    engine.controller.regime.trustRegion engine.stream
  -- the estimate behind the decision is the one that the bound is about
  obtain rfl := Except.ok.inj (hest.symm.trans hest')
  obtain ⟨selection', ledger, hselect', hledger, _, hbound⟩ := hkept (ht est hest)
  rw [hp] at hselect
  obtain rfl := (Prod.mk.inj (Except.ok.inj (hselect.symm.trans hselect'))).1
  exact ⟨ledger, hledger, ledger.overallMaxChange_le _ hbound⟩

end Engine

/-- The guarantee of the trust region: a pass over the ranked candidates returns, and its ledger keeps
every slot within the bound where this is tight. In no run does an iteration exceed the trust region
in force, nor this one the trust region of the start. -/
theorem trustRegion_guarantee (packer : PackerConfig) :
    (∀ (e : Ensemble) (selfExclusion : Bool) (t : UInt32) (s : RandomStream),
      e.validate = .ok () → ∃ est, e.estimate selfExclusion = .ok est ∧
        ((e.replications = 1 ∨ e.replications = 2 ∧ selfExclusion = true ∧
            ∀ a ∈ e.agents, a.generating.isSome = true) →
          packer.Tight (rank est.candidates s).1) ∧
        (packer.Tight (rank est.candidates s).1 →
          e.Kept packer (rank est.candidates s).1 t (rank est.candidates s).2)) ∧
    ∀ (σ : Type) [EventSink σ] (sink : σ) (c : EngineConfig), c.policy = .trustRegion packer →
      ∀ start, Engine.create c sink = .ok start →
        ∀ (history : List Ensemble) (e : Ensemble), (start.after history).Tight packer e →
          (start.after history).controller.regime.trustRegion ≤ c.adaptation.initialTrustRegion ∧
          (∀ gaps selection stream,
            (start.after history).decide e = .ok (gaps, selection, stream) →
            ∃ ledger, selection.ledger = some ledger ∧ ledger.overallMaxChange ≤
              (start.after history).controller.regime.trustRegion.toNat) ∧
          ∀ result, ((start.after history).run e).1 = .ok result →
            ∃ ledger, result.selection.ledger = some ledger ∧
              ledger.overallMaxChange ≤ result.regime.trustRegion.toNat ∧
              result.regime.trustRegion ≤ c.adaptation.initialTrustRegion := by
  refine ⟨fun e selfExclusion t s he => e.kept_of_validate he packer selfExclusion t s, ?_⟩
  intro σ _ sink c hp start hstart history e ht
  obtain ⟨hc, _, rfl⟩ := (Engine.create_eq_ok_iff c sink start).mp hstart
  -- behind any run the policy is still the one of the configuration
  have hsound := Engine.after_sound c _ (Engine.initial_sound c hc sink) history
  have hpolicy := (congrArg EngineConfig.policy hsound.config).trans hp
  refine ⟨hsound.limit, Engine.decide_within _ packer hpolicy e ht, ?_⟩
  intro result hresult
  obtain ⟨gaps, selection, stream, hd, rfl⟩ := Engine.run_eq_ok _ e result hresult
  obtain ⟨ledger, hledger, hbound⟩ :=
    Engine.decide_within _ packer hpolicy e ht gaps selection stream hd
  exact ⟨ledger, hledger, hbound, hsound.limit⟩

def EngineConfig.narrow : EngineConfig where
  policy := .trustRegion { aggregation := .worst }
  adaptation := { initialTrustRegion := 1 }

theorem trustRegion_guarantee_rivals :
    Ensemble.rivals.validate = .ok () ∧ EngineConfig.narrow.validate = .ok () ∧
    (∃ est, Ensemble.rivals.estimate true = .ok est ∧
      Ensemble.rivals.Kept { aggregation := .worst } (rank est.candidates (.ofSeed 1)).1 1
        (rank est.candidates (.ofSeed 1)).2) ∧
    ∃ start result ledger, Engine.create .narrow EventLog.empty = .ok start ∧
      (start.run .rivals).1 = .ok result ∧ result.selection.ledger = some ledger ∧
      ledger.overallMaxChange ≤ result.regime.trustRegion.toNat ∧
      result.regime.trustRegion ≤ 1 := by
  have he := Ensemble.rivals_valid
  have hc : EngineConfig.narrow.validate = .ok () := eq_ok_of_isOk _ (by decide +kernel)
  obtain ⟨hpass, hrun⟩ := trustRegion_guarantee { aggregation := .worst }
  obtain ⟨est, hest, _, hkept⟩ := hpass .rivals true 1 (.ofSeed 1) he
  have hstart := Engine.create_ok .narrow hc (by decide) EventLog.empty
  have hall := hrun EventLog EventLog.empty .narrow rfl _ hstart
  -- the run that the guarantee speaks of is the one that `decide_ok` says goes through
  obtain ⟨gaps, selection, stream, hd, _⟩ :=
    Engine.decide_ok (.initial .narrow EventLog.empty) .rivals rfl he
  have hresult := Engine.run_of_accepts (.initial .narrow EventLog.empty)
    (accepts_eventLog EventLog.empty) .rivals
  rw [hd] at hresult
  obtain ⟨_, _, hbound⟩ := hall [] .rivals fun _ _ => Or.inl rfl
  obtain ⟨ledger, hledger, hle, hlimit⟩ := hbound _ hresult
  exact ⟨he, hc, ⟨est, hest, hkept (Or.inl rfl)⟩, _, _, ledger, hstart, hresult, hledger, hle,
    hlimit⟩

end Replanning
