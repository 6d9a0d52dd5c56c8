import Replanning.Proofs.Omission

namespace Replanning

namespace Ledger

/-- The row of a replication, or the replication if the ledger has no row for it. -/
def checkedRow (l : Ledger) (r : ℕ) : Except ℕ LedgerRow :=
  match l.rows[r]? with
  | some row => .ok row
  | none => .error r

theorem checkedRow_eq (l : Ledger) (r : ℕ) (h : r < l.rows.length) :
    l.checkedRow r = .ok (l.row r) := by
  rw [checkedRow, row, List.getElem?_eq_getElem h, List.getD_eq_getElem _ _ h]

def checkedAnticipate (l : Ledger) (r : ℕ) (slots : List Slot) : Except ℕ ℕ := do
  return (← l.checkedRow r).anticipate slots

def checkedAnticipated (l : Ledger) (how : Aggregate) (c : Load) : Except ℕ Float := do
  return how.combine (← c.footprints.mapM fun f => l.checkedAnticipate f.1 f.2)

theorem checkedAnticipated_eq (l : Ledger) (how : Aggregate) (c : Load)
    (h : c.InRange l.rows.length) :
    l.checkedAnticipated how c = .ok (l.anticipated how c) := by
  have hall : c.footprints.mapM (fun f => l.checkedAnticipate f.1 f.2) =
      .ok (c.footprints.map fun f => l.anticipate f.1 f.2) := by
    apply mapM_eq_ok
    intro f hf
    rw [checkedAnticipate, checkedRow_eq l f.1 (h f hf)]
    rfl
  rw [checkedAnticipated, hall]
  rfl

def checkedCommit (l : Ledger) (r : ℕ) (slots : List Slot) : Except ℕ Ledger := do
  return ⟨l.rows.set r ((← l.checkedRow r).commit slots)⟩

theorem checkedCommit_eq (l : Ledger) (r : ℕ) (slots : List Slot) (h : r < l.rows.length) :
    l.checkedCommit r slots = .ok (l.commit r slots) := by
  rw [checkedCommit, checkedRow_eq l r h, commit, List.modify_eq_set_getElem?,
    List.getElem?_eq_getElem h, row, List.getD_eq_getElem _ _ h]
  rfl

/-- The number of rows stays, so what is in range before a commitment is so behind it. -/
theorem checkedCommit_all (l : Ledger) (footprints : List (ℕ × List Slot))
    (h : ∀ f ∈ footprints, f.1 < l.rows.length) :
    footprints.foldlM (fun l f => l.checkedCommit f.1 f.2) l = .ok (l.commitAll footprints) := by
  induction footprints generalizing l with
  | nil => rfl
  | cons f rest ih =>
    obtain ⟨hf, hrest⟩ := List.forall_mem_cons.mp h
    rw [List.foldlM_cons, checkedCommit_eq l f.1 f.2 hf]
    exact ih (l.commit f.1 f.2) (by rwa [length_commit])

def checkedAccept (l : Ledger) (c : Load) : Except ℕ Ledger :=
  c.footprints.foldlM (fun l f => l.checkedCommit f.1 f.2) l

theorem checkedAccept_eq (l : Ledger) (c : Load) (h : c.InRange l.rows.length) :
    l.checkedAccept c = .ok (l.accept c) :=
  l.checkedCommit_all c.footprints h

end Ledger

namespace PackerConfig

variable (config : PackerConfig) (t : UInt32)

/-- The decision on one candidate by a ledger that looks up every row before it is read or changed. -/
def checkedStep (l : Ledger) (c : Load) : Except ℕ (Decision × Ledger) :=
  if !config.admitNegativeGaps && c.score < 0.0 then .ok (c.decide .rejectedNegativeGap none, l)
  else if c.isInert then .ok (c.decide .accepted none, l)
  else do
    let anticipated ← l.checkedAnticipated config.aggregation c
    if anticipated ≤ t.toFloat then
      return (c.decide .accepted (some anticipated), ← l.checkedAccept c)
    else return (c.decide .rejectedInfeasible (some anticipated), l)

theorem checkedStep_eq (l : Ledger) (c : Load) (h : c.InRange l.rows.length) :
    config.checkedStep t l c = .ok (config.step t l c) := by
  unfold checkedStep step
  rw [l.checkedAnticipated_eq config.aggregation c h, l.checkedAccept_eq c h]
  split_ifs with hneg hinert
  · rfl
  · rfl
  · change (if _ then _ else _) = _
    dsimp only
    split_ifs <;> rfl

theorem length_step (l : Ledger) (c : Load) :
    (config.step t l c).2.rows.length = l.rows.length := by
  obtain ⟨_, hstep⟩ | ⟨_, ⟨_, hstep⟩ | ⟨_, ⟨_, hstep⟩ | ⟨_, hstep⟩⟩⟩ := config.step_cases t l c
  · rw [hstep]
  · rw [hstep]
  · rw [hstep, Ledger.length_accept]
  · rw [hstep]

def checkedSteps : Ledger → List Load → Except ℕ (List Decision × Ledger)
  | l, [] => .ok ([], l)
  | l, c :: rest => do
    let (d, l) ← config.checkedStep t l c
    let (ds, l) ← checkedSteps l rest
    return (d :: ds, l)

theorem checkedSteps_eq (l : Ledger) (cs : List Load) (h : ∀ c ∈ cs, c.InRange l.rows.length) :
    config.checkedSteps t l cs = .ok (config.steps t l cs) := by
  induction cs generalizing l with
  | nil => rfl
  | cons c rest ih =>
    obtain ⟨hc, hrest⟩ := List.forall_mem_cons.mp h
    rw [checkedSteps, config.checkedStep_eq t l c hc]
    change (config.checkedSteps t (config.step t l c).2 rest >>= _) = _
    rw [ih (config.step t l c).2 (by rwa [length_step])]
    rfl

-- a load out of range would reach for its row
example : checkedSteps {} 16 (.empty 1) [⟨"a", 1.0, [(0, []), (3, [⟨"link", 7⟩])]⟩] = .error 3 := by
  rfl

/-- A pass that stops at the first row outside its ledger, and answers with this row. -/
def checkedPack (cs : List Load) (n : ℕ) :
    Except ℕ (Except EnsembleError (List Decision × Ledger)) :=
  match checkRange n cs with
  | .error err => .ok (.error err)
  | .ok () => do
    return .ok (← config.checkedSteps t (.empty n) cs)

theorem pack_eq_error (n : ℕ) (cs : List Load) (err : EnsembleError) :
    config.pack cs t n = .error err ↔ checkRange n cs = .error err := by
  rw [pack, bind_pure_eq_error]

/-- The range check comes first, so no pass reaches for a row that its ledger does not have. -/
theorem checkedPack_eq (cs : List Load) (n : ℕ) :
    config.checkedPack t cs n = .ok (config.pack cs t n) := by
  unfold checkedPack
  cases hcheck : checkRange n cs with
  | error err => rw [(config.pack_eq_error t n cs err).mpr hcheck]
  | ok _ =>
    have hpack : config.pack cs t n = .ok (config.steps t (.empty n) cs) := by
      rw [pack, hcheck]
      rfl
    have hrange := config.inRange_of_pack t n cs _ hpack
    rw [hpack, config.checkedSteps_eq t (.empty n) cs (by rwa [Ledger.empty, List.length_replicate])]
    rfl

end PackerConfig
end Replanning
