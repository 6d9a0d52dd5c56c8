import Replanning.Proofs.Iteration

/-! Every completed iteration leaves one block of events, and the adaptations among them, taken in
order, lead from the regime at the start to the regime in force. -/
namespace Replanning

namespace Regime

/-- The regime behind an event, which is another one only if the event reports an adaptation. -/
def follow (s : Regime) : Event → Regime
  | .trustRegionHalved _ _ new _ _ => { s with trustRegion := new }
  | .replicationsDoubled _ _ new _ _ _ _ => { s with replications := new }
  | _ => s

def replay (s : Regime) (events : List Event) : Regime :=
  events.foldl follow s

/-- An adaptation is reported with the value that it found. -/
def Announces (s : Regime) : Event → Prop
  | .trustRegionHalved _ old _ _ _ => old = s.trustRegion
  | .replicationsDoubled _ old _ _ _ _ _ => old = s.replications
  | _ => True

/-- Every adaptation of a sequence is reported with the value that the events before it lead to. -/
def Fits (s : Regime) : List Event → Prop
  | [] => True
  | e :: rest => s.Announces e ∧ (s.follow e).Fits rest

theorem replay_append (s : Regime) (first rest : List Event) :
    s.replay (first ++ rest) = (s.replay first).replay rest :=
  List.foldl_append

theorem fits_append (s : Regime) (first rest : List Event) :
    s.Fits (first ++ rest) ↔ s.Fits first ∧ (s.replay first).Fits rest := by
  induction first generalizing s with
  | nil => exact (true_and _ ▸ Iff.rfl)
  | cons e first ih =>
    change s.Announces e ∧ (s.follow e).Fits (first ++ rest) ↔ (s.Announces e ∧ _) ∧ _
    rw [ih, and_assoc]
    rfl

end Regime

/-- The report on a selection: as many candidates as there are agents, in four shares. -/
def Event.Counts (e : Event) (i : UInt64) (agents : ℕ) : Prop :=
  ∃ (policy : String) (score : Float) (accepted infeasible negative byPolicy : ℕ),
    accepted + infeasible + negative + byPolicy = agents ∧
    e = .selectionCompleted i policy agents.toUInt64 accepted.toUInt64 infeasible.toUInt64
      negative.toUInt64 byPolicy.toUInt64 score

theorem Event.ofSelection_counts (i : UInt64) (s : Selection) :
    (Event.ofSelection i s).Counts i s.decisions.length :=
  ⟨s.policy, s.acceptedScore, _, _, _, _, s.count_sum, rfl⟩

namespace Controller

/-- The reports of iteration `i` behind its selection. The window is tested once it is long enough,
and the regime is changed exactly if it is stationary. The record that comes last has the regime
from before. -/
inductive Reports (c : Controller) (i : UInt64) : List Event → Prop
  | untested (gap : Float) (h : c.reach < c.minRequired.toNat) :
    c.Reports i [.iterationRecord i gap c.regime.trustRegion c.regime.replications none none none]
  | drifting (gap : Float) (t : Option Float) (h : c.minRequired.toNat ≤ c.reach) :
    c.Reports i [.stationarityChecked i c.reach.toUInt64 c.minRequired t false,
      .iterationRecord i gap c.regime.trustRegion c.regime.replications none none t]
  | halved (gap within between : Float) (t : Option Float) (h : c.minRequired.toNat ≤ c.reach)
      (htr : 1 < c.regime.trustRegion) :
    c.Reports i [.stationarityChecked i c.reach.toUInt64 c.minRequired t true,
      .trustRegionHalved i c.regime.trustRegion (max (c.regime.trustRegion / 2) 1) within between,
      .iterationRecord i gap c.regime.trustRegion c.regime.replications (some within)
        (some between) t]
  | doubled (gap within between : Float) (t : Option Float) (floorHit : Bool) (count : UInt32)
      (h : c.minRequired.toNat ≤ c.reach) :
    c.Reports i [.stationarityChecked i c.reach.toUInt64 c.minRequired t true,
      .replicationsDoubled i c.regime.replications (doubled c.regime.replications) floorHit count
        within between,
      .iterationRecord i gap c.regime.trustRegion c.regime.replications (some within)
        (some between) t]

/-- Reports announce what they change. -/
theorem Reports.fits {c : Controller} {i : UInt64} {events : List Event} (h : c.Reports i events) :
    c.regime.Fits events := by
  cases h with
  | untested gap h => exact ⟨trivial, trivial⟩
  | drifting gap t h => exact ⟨trivial, trivial, trivial⟩
  | halved gap within between t h htr => exact ⟨trivial, rfl, trivial, trivial⟩
  | doubled gap within between t floorHit count h => exact ⟨trivial, rfl, trivial, trivial⟩

end Controller

namespace Engine

variable {σ : Type}

/-- The events of an iteration begin with its selection. The reports of the controller follow, and
they lead to the regime that it has then. -/
theorem events_reports (c : Controller) (h : c.Sound) (s : GapSample) (r : IterationResult)
    (hr : r.regime = c.regime) :
    ∃ reports, events r (c.register s).1 (c.register s).2.impossibleReductions =
        .ofSelection r.iteration r.selection :: reports ∧
      c.Reports r.iteration reports ∧ (c.register s).2.regime = c.regime.replay reports := by
  have hlen := c.length_slide h s
  unfold events
  rw [hr]
  rcases c.register_eq s with ⟨hshort, hout⟩ | ⟨hreach, htest, hout⟩ |
    ⟨hreach, htest, hout⟩
  · rw [hout, hlen]
    exact ⟨_, rfl, .untested r.meanGap (hlen ▸ hshort), rfl⟩
  · rw [hout, hlen]
    simp only [Option.toList_some, List.map_cons, List.map_nil, htest]
    exact ⟨_, rfl, .drifting r.meanGap (c.trial s).tStatistic (hlen ▸ hreach), rfl⟩
  -- the change that is reported is the one that was made
  · rw [hout, hlen]
    have haction : (c.change s).action =
        c.regime.action (c.change s).withinVariance (c.change s).betweenVariance := rfl
    simp only [Option.toList_some, List.map_cons, List.map_nil, htest, Event.ofAdaptation]
    rcases c.regime.action_cases (c.change s).withinVariance (c.change s).betweenVariance with
      ⟨htr, hact⟩ | ⟨floorHit, hact⟩
    · rw [haction, hact]
      exact ⟨_, rfl, .halved r.meanGap _ _ (c.trial s).tStatistic (hlen ▸ hreach) htr, rfl⟩
    · rw [haction, hact]
      exact ⟨_, rfl, .doubled r.meanGap _ _ (c.trial s).tStatistic floorHit _ (hlen ▸ hreach),
        rfl⟩

/-- The events of a completed iteration. -/
inductive Block (i : UInt64) (c : Controller) (agents : ℕ) : List Event → Prop
  | mk {selected : Event} {reports : List Event} (hs : selected.Counts i agents)
      (hr : c.Reports i reports) : Block i c agents (selected :: reports)

theorem Block.fits {i : UInt64} {c : Controller} {agents : ℕ} {events : List Event}
    (h : Block i c agents events) : c.regime.Fits events := by
  obtain ⟨⟨_, _, _, _, _, _, _, rfl⟩, hr⟩ := h
  exact ⟨trivial, hr.fits⟩

/-- The calls of a run that returned a result, each with the engine that it found. -/
def completed [EventSink σ] (engine : Engine σ) : List Ensemble → List (Engine σ × Ensemble)
  | [] => []
  | e :: rest =>
    let (outcome, next) := engine.run e
    if outcome.isOk then (engine, e) :: next.completed rest else next.completed rest

/-- The blocks of some calls, one behind the other. -/
def reported (calls : List (Engine σ × Ensemble)) : List Event :=
  calls.flatMap fun (engine, e) => engine.emitted e

variable {c : EngineConfig}

/-- A call on an engine with a log fails and changes nothing, or it adds its block. -/
theorem run_logged (engine : Engine EventLog) (h : engine.Sound c) (e : Ensemble) :
    ((engine.run e).1.isOk = false ∧ (engine.run e).2 = engine) ∨
    ((engine.run e).1.isOk = true ∧
      (engine.run e).2.iteration = engine.iteration + 1 ∧
      (engine.run e).2.sink.events = engine.sink.events ++ engine.emitted e ∧
      (engine.run e).2.controller.regime = engine.controller.regime.replay (engine.emitted e) ∧
      Block engine.iteration engine.controller e.agents.length (engine.emitted e)) := by
  cases hd : engine.decide e with
  | error cause =>
    rw [run_of_error engine e cause hd]
    exact Or.inl ⟨rfl, rfl⟩
  | ok decided =>
    obtain ⟨gaps, selection, stream⟩ := decided
    obtain ⟨reports, hevents, hreports, hregime⟩ := events_reports engine.controller h.controller
      ⟨engine.iteration, gaps⟩ (engine.advance gaps selection stream).2.1 rfl
    have hemitted : engine.emitted e = .ofSelection engine.iteration selection :: reports := by
      rw [emitted, hd]
      exact hevents
    have hsink : (engine.run e).2.sink.events = engine.sink.events ++ engine.emitted e := by
      rw [sink_run, offer_eventLog]
    have hcounts := Event.ofSelection_counts engine.iteration selection
    rw [decide_length engine e gaps selection stream hd] at hcounts
    refine Or.inr ⟨?_, ?_, hsink, ?_, ?_⟩
    · rw [run_of_accepts engine (accepts_eventLog engine.sink), hd]
      rfl
    · rw [run_eq, hd]
      rfl
    · rw [run_eq, hd, hemitted]
      exact hregime
    · rw [hemitted]
      exact .mk hcounts hreports

/-- What some calls in a row account for: the log, the count of iterations and the regime of the
engine behind them, and every engine in between. -/
structure Accounts (engine : Engine EventLog) (calls : List (Engine EventLog × Ensemble))
    (last : Engine EventLog) : Prop where
  log : last.sink.events = engine.sink.events ++ reported calls
  iteration : last.iteration = engine.iteration + calls.length.toUInt64
  regime : last.controller.regime = engine.controller.regime.replay (reported calls)
  fits : engine.controller.regime.Fits (reported calls)
  blocks : ∀ i found e, calls[i]? = some (found, e) →
    found.controller.regime = engine.controller.regime.replay (reported (calls.take i)) ∧
    Block (engine.iteration + i.toUInt64) found.controller e.agents.length (found.emitted e)

theorem Accounts.nil (engine : Engine EventLog) : Accounts engine [] engine where
  log := (List.append_nil _).symm
  iteration := (UInt64.add_zero _).symm
  regime := rfl
  fits := trivial
  blocks := fun i found e h => by simp at h

/-- One more call in front. -/
theorem Accounts.cons {engine next last : Engine EventLog} {e : Ensemble}
    {calls : List (Engine EventLog × Ensemble)} (h : Accounts next calls last)
    (hiteration : next.iteration = engine.iteration + 1)
    (hsink : next.sink.events = engine.sink.events ++ engine.emitted e)
    (hregime : next.controller.regime = engine.controller.regime.replay (engine.emitted e))
    (hblock : Block engine.iteration engine.controller e.agents.length (engine.emitted e)) :
    Accounts engine ((engine, e) :: calls) last := by
  have hreported (more : List (Engine EventLog × Ensemble)) :
      reported ((engine, e) :: more) = engine.emitted e ++ reported more := rfl
  have hnumber (n : ℕ) : engine.iteration + (n+1).toUInt64 = next.iteration + n.toUInt64 := by
    rw [hiteration, UInt64.add_assoc, UInt64.add_comm 1]
    exact congrArg (engine.iteration + ·) (UInt64.ofNat_add n 1)
  refine ⟨?_, ?_, ?_, ?_, ?_⟩
  · rw [hreported, h.log, hsink, List.append_assoc]
  · rw [List.length_cons, hnumber, h.iteration]
  · rw [hreported, Regime.replay_append, ← hregime, h.regime]
  · rw [hreported, Regime.fits_append, ← hregime]
    exact ⟨hblock.fits, h.fits⟩
  · intro i found e' hi
    cases i with
    | zero =>
      obtain ⟨rfl, rfl⟩ := Prod.mk.inj (Option.some.inj hi)
      exact ⟨rfl, (UInt64.add_zero engine.iteration).symm ▸ hblock⟩
    -- the calls that follow start from the next engine
    | succ i =>
      obtain ⟨hfound, hb⟩ := h.blocks i found e' hi
      rw [List.take_succ_cons, hreported, Regime.replay_append, ← hregime, hnumber]
      exact ⟨hfound, hb⟩

/-- The completed calls of a run account for it. -/
theorem completed_accounts (engine : Engine EventLog) (h : engine.Sound c)
    (history : List Ensemble) :
    Accounts engine (engine.completed history) (engine.after history) := by
  induction history generalizing engine with
  | nil => exact .nil engine
  | cons e rest ih =>
    have hrest := ih (engine.run e).2 (run_sound c engine h e)
    change Accounts engine (if (engine.run e).1.isOk then
      (engine, e) :: (engine.run e).2.completed rest else (engine.run e).2.completed rest)
      ((engine.run e).2.after rest)
    rcases run_logged engine h e with ⟨hfail, hsame⟩ | ⟨hok, hiteration, hsink, hregime, hblock⟩
    · rw [if_neg (Bool.eq_false_iff.mp hfail)]
      rw [hsame] at hrest ⊢
      exact hrest
    · rw [if_pos hok]
      exact hrest.cons hiteration hsink hregime hblock

/-- The log consists of the blocks of the completed calls, and following its adaptations leads from
the initial regime to the one in force, for the whole run as for each of its calls. -/
theorem log_replays (c : EngineConfig) (start : Engine EventLog)
    (hstart : create c EventLog.empty = .ok start) (history : List Ensemble) :
    let calls := start.completed history
    let last := start.after history
    let initial : Regime := ⟨c.adaptation.initialTrustRegion, c.adaptation.initialReplications⟩
    last.sink.events = reported calls ∧ last.iteration = calls.length.toUInt64 ∧
    last.controller.regime = initial.replay last.sink.events ∧
    (∀ before event later, last.sink.events = before ++ event :: later →
      (initial.replay before).Announces event) ∧
    ∀ i engine e, calls[i]? = some (engine, e) →
      engine.controller.regime = initial.replay (reported (calls.take i)) ∧
      Block i.toUInt64 engine.controller e.agents.length (engine.emitted e) := by
  obtain ⟨hc, _, rfl⟩ := (create_eq_ok_iff c EventLog.empty start).mp hstart
  intro calls last initial
  have h := completed_accounts _ (initial_sound c hc EventLog.empty) history
  have hlog := h.log
  change _ = [] ++ _ at hlog
  rw [List.nil_append] at hlog
  refine ⟨hlog, ?_, ?_, ?_, ?_⟩
  · exact h.iteration.trans (UInt64.zero_add _)
  · rw [hlog]
    exact h.regime
  · intro before event later hsplit
    have hfits := h.fits
    rw [← hlog, hsplit] at hfits
    exact ((Regime.fits_append _ _ _).mp hfits).2.1
  · intro i engine e hi
    obtain ⟨hfound, hblock⟩ := h.blocks i engine e hi
    refine ⟨hfound, ?_⟩
    change Block (0 + i.toUInt64) _ _ _ at hblock
    rwa [UInt64.zero_add] at hblock

end Engine

/-- Four alternating gaps, with a failing call among them, lead to one halving. -/
theorem Engine.log_replays_swings :
    let c : EngineConfig := { adaptation := { minEvaluatedIterations := 4 } }
    let history : List Ensemble :=
      [.single 2 1.0, .single 2 (-1.0), .incomplete, .single 2 1.0, .single 2 (-1.5)]
    c.validate = .ok () ∧ ∃ start, create c EventLog.empty = .ok start ∧
      (start.completed history).length = 4 ∧
      (⟨16, 2⟩ : Regime).replay (start.after history).sink.events = ⟨8, 2⟩ := by
  intro c history
  have hc : c.validate = .ok () := eq_ok_of_isOk _ (by decide +kernel)
  have hstart := Engine.create_ok c hc (by decide) EventLog.empty
  obtain ⟨_, _, hregime, _, _⟩ := Engine.log_replays c _ hstart history
  have hfour : ((Engine.initial c EventLog.empty).completed history).length = 4 := by
    decide +kernel
  have hlast : ((Engine.initial c EventLog.empty).after history).controller.regime = ⟨8, 2⟩ := by
    decide +kernel
  exact ⟨hc, _, hstart, hfour, hregime.symm.trans hlast⟩

end Replanning
