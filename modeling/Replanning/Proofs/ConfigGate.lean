import Replanning.Proofs.Encoding.Config
import Replanning.Proofs.Json.Canonical
import Replanning.Proofs.Restore

/-! Two valid configurations have the same canonical text only if they agree in every field, so that
their digests tell them apart as far as digests tell texts apart. -/
namespace Replanning

open Json

attribute [ext] PackerConfig AdaptationConfig EngineConfig

theorem PackerConfig.members_inj (c c' : PackerConfig)
    (h : c.members.map (fun m => m.2.sorted) = c'.members.map fun m => m.2.sorted) : c = c' := by
  simp only [members, List.map_cons, List.map_nil, List.cons.injEq, and_true] at h
  obtain ⟨hvacated, hnegative, haggregation⟩ := h
  apply PackerConfig.ext
  · exact exact_bool.sorted_inj (fun _ => rfl) _ _ rfl rfl hvacated
  · exact exact_bool.sorted_inj (fun _ => rfl) _ _ rfl rfl hnegative
  · exact Aggregate.exact.sorted_inj Aggregate.isScalar_toJson _ _ rfl rfl haggregation

theorem AdaptationConfig.sorted_inj (c c' : AdaptationConfig) (hc : c.finite = true)
    (hc' : c'.finite = true) (h : c.toJson.sorted = c'.toJson.sorted) : c = c' := by
  have hmembers := sorted_object_inj _ _ (by rfl) (by simp) h
  simp only [List.map_cons, List.map_nil, List.cons.injEq, and_true] at hmembers
  obtain ⟨htr, hrep, hmin, hwindow, hvalue⟩ := hmembers
  apply AdaptationConfig.ext
  · exact exact_word32.sorted_inj (fun _ => rfl) _ _ rfl rfl htr
  · exact exact_word64.sorted_inj (fun _ => rfl) _ _ rfl rfl hrep
  · exact exact_word64.sorted_inj (fun _ => rfl) _ _ rfl rfl hmin
  · exact exact_word64.sorted_inj (fun _ => rfl) _ _ rfl rfl hwindow
  · exact exact_float.sorted_inj isScalar_ofFloat _ _ hc hc' hvalue

/-- The canonical form of a policy shows its name. -/
theorem Policy.name_inj (p p' : Policy) (h : p.toJson.sorted = p'.toJson.sorted) :
    p.name = p'.name := by
  have hmembers (q : Policy) : ∃ rest, q.toJson = .object (("type", .string q.name) :: rest) ∧
      ("type" :: rest.map Prod.fst).Nodup := by
    cases q <;> exact ⟨_, rfl, by simp [PackerConfig.members]⟩
  obtain ⟨rest, hp, hnodup⟩ := hmembers p
  obtain ⟨rest', hp', hnodup'⟩ := hmembers p'
  rw [hp, hp'] at h
  have htype := lookup_of_sorted_eq _ _ (by exact hnodup) (by exact hnodup') h "type"
  rw [List.lookup_cons_self, List.lookup_cons_self] at htype
  exact Json.string.inj (Option.some.inj htype)

/-- The canonical form of a policy with a rate or a share shows its parameters. -/
theorem Policy.parameters_inj (name parameter : String) (x x' : Float) (b b' : Bool)
    (hnames : ["type", parameter, "admit_negative_gaps"].Nodup) (hx : x.isFinite = true)
    (hx' : x'.isFinite = true)
    (h : (object [("type", .string name), (parameter, ofFloat x),
        ("admit_negative_gaps", .bool b)]).sorted =
      (object [("type", .string name), (parameter, ofFloat x'),
        ("admit_negative_gaps", .bool b')]).sorted) : x = x' ∧ b = b' := by
  have hmembers := sorted_object_inj _ _ (by rfl) (by exact hnames) h
  simp only [List.map_cons, List.map_nil, List.cons.injEq, and_true] at hmembers
  obtain ⟨_, hvalue, hadmit⟩ := hmembers
  exact ⟨exact_float.sorted_inj isScalar_ofFloat x x' hx hx' hvalue,
    exact_bool.sorted_inj (fun _ => rfl) _ _ rfl rfl hadmit⟩

theorem Policy.sorted_inj (p p' : Policy) (hp : p.finite = true) (hp' : p'.finite = true)
    (h : p.toJson.sorted = p'.toJson.sorted) : p = p' := by
  have hname := name_inj p p' h
  -- the names of the parameters follow from the name of the policy
  rcases p with packer | ⟨rate, b⟩ | ⟨share, b⟩ <;>
    rcases p' with packer' | ⟨rate', b'⟩ | ⟨share', b'⟩
  case trustRegion.trustRegion =>
    have hmembers := sorted_object_inj _ _ (by rfl) (by simp [PackerConfig.members]) h
    rw [List.map_cons, List.map_cons, List.cons.injEq] at hmembers
    rw [PackerConfig.members_inj packer packer' hmembers.2]
  case uniform.uniform =>
    obtain ⟨rfl, rfl⟩ := parameters_inj _ _ rate rate' b b' (by decide) hp hp' h
    rfl
  case topShare.topShare =>
    obtain ⟨rfl, rfl⟩ := parameters_inj _ _ share share' b b' (by decide) hp hp' h
    rfl
  all_goals exact absurd hname (by simp [name])

theorem scoring_sorted_inj (b b' : Bool)
    (h : (scoringToJson b).sorted = (scoringToJson b').sorted) : b = b' := by
  have hmembers := sorted_object_inj _ _ (by rfl) (by simp) h
  simp only [List.map_cons, List.map_nil, List.cons.injEq, and_true] at hmembers
  exact exact_bool.sorted_inj (fun _ => rfl) _ _ rfl rfl hmembers

/-- Configurations whose doubles are numbers have one canonical form only if they are the same. -/
theorem EngineConfig.sorted_inj (c c' : EngineConfig) (hc : c.finite = true)
    (hc' : c'.finite = true) (h : c.toJson.sorted = c'.toJson.sorted) : c = c' := by
  have hmembers := sorted_object_inj _ _ (by rfl) (by simp) h
  simp only [List.map_cons, List.map_nil, List.cons.injEq, and_true] at hmembers
  obtain ⟨hseed, hscore, hpolicy, hadaptation, hlimit⟩ := hmembers
  obtain ⟨hp, ha⟩ := Bool.and_eq_true_iff.mp hc
  obtain ⟨hp', ha'⟩ := Bool.and_eq_true_iff.mp hc'
  apply EngineConfig.ext
  · exact exact_word64.sorted_inj (fun _ => rfl) _ _ rfl rfl hseed
  · exact scoring_sorted_inj _ _ hscore
  · exact Policy.sorted_inj _ _ hp hp' hpolicy
  · exact AdaptationConfig.sorted_inj _ _ ha ha' hadaptation
  · have hlimits := exact_option exact_word32 fun _ => nofun
    exact hlimits.sorted_inj (isScalar_ofOption _ fun _ => rfl) _ _ (by simp) (by simp) hlimit

/-- Validation passes no double that is no number. -/
theorem EngineConfig.finite_of_validate (c : EngineConfig) (hc : c.validate = .ok ()) :
    c.finite = true := by
  obtain ⟨hp, ha⟩ := c.parts_valid hc
  exact Bool.and_eq_true_iff.mpr
    ⟨c.policy.finite_of_validate hp, c.adaptation.finite_of_validate ha⟩

theorem EngineConfig.canonical_inj (c c' : EngineConfig) (hc : c.validate = .ok ())
    (hc' : c'.validate = .ok ()) : c.toJson.canonical = c'.toJson.canonical ↔ c = c' := by
  rw [canonical_eq_iff _ _ c.writable_toJson c'.writable_toJson]
  constructor
  · exact sorted_inj c c' (c.finite_of_validate hc) (c'.finite_of_validate hc')
  · rintro rfl
    rfl

variable {σ τ : Type} [EventSink σ]

/-- The gate of configurations: two valid ones have the same canonical text exactly if they agree in
every field, bit for bit. So if digests do not collide, a saved state is refused as foreign exactly
if the two differ, provided that a window of the second can be laid out. -/
theorem configGate_exact (c c' : EngineConfig) (hc : c.validate = .ok ())
    (hc' : c'.validate = .ok ()) :
    (c.toJson.canonical = c'.toJson.canonical ↔ c = c') ∧
    ((Digest.sha256 (Writer.bytes c.toJson.canonical) =
        Digest.sha256 (Writer.bytes c'.toJson.canonical) →
      c.toJson.canonical = c'.toJson.canonical) →
    ∀ (engine : Engine σ) (sink : τ), Engine.Running c engine →
      ((∃ saved asked, Engine.restore c' engine.snapshot sink =
        .error (.configMismatch saved asked)) ↔ c'.adaptation.Reservable ∧ c ≠ c')) := by
  refine ⟨EngineConfig.canonical_inj c c' hc hc', ?_⟩
  intro hcollide engine sink hrunning
  have hsaved : engine.snapshot.configHash = c.hash := (hrunning.consistent hc).configHash
  have hhash : c.hash = c'.hash ↔ c = c' := by
    constructor
    · intro h
      exact (EngineConfig.canonical_inj c c' hc hc').mp (hcollide h)
    · rintro rfl
      rfl
  constructor
  · rintro ⟨saved, asked, h⟩
    obtain ⟨hroom, hforeign, _, _⟩ := (Engine.restore_mismatch_iff c' hc' _ sink _ _).mp h
    rw [hsaved] at hforeign
    exact ⟨hroom, mt hhash.mpr hforeign⟩
  · rintro ⟨hroom, hne⟩
    refine ⟨_, _, (Engine.restore_mismatch_iff c' hc' _ sink _ _).mpr ⟨hroom, ?_, rfl, rfl⟩⟩
    rw [hsaved]
    exact mt hhash.mp hne

/-- A share of zero and one of negative zero admit the same candidates and compare as equal, and yet
they have different texts and digests. -/
theorem configGate_exact_zeros :
    let c : EngineConfig := { policy := .topShare 0.0 false }
    let c' : EngineConfig := { policy := .topShare (-0.0) false }
    let engine := ((Engine.initial c NullSink.mk).run (.single 2 1.0)).2
    c.validate = .ok () ∧ c'.validate = .ok () ∧ c.toJson.canonical ≠ c'.toJson.canonical ∧
    Digest.sha256 (Writer.bytes c.toJson.canonical) ≠
      Digest.sha256 (Writer.bytes c'.toJson.canonical) ∧
    ∃ saved asked, Engine.restore c' engine.snapshot EventLog.empty =
      .error (.configMismatch saved asked) := by
  intro c c' engine
  have hc : c.validate = .ok () := eq_ok_of_isOk _ (by decide +kernel)
  have hc' : c'.validate = .ok () := eq_ok_of_isOk _ (by decide +kernel)
  have hdigest : Digest.sha256 (Writer.bytes c.toJson.canonical) ≠
      Digest.sha256 (Writer.bytes c'.toJson.canonical) := by
    decide +kernel
  obtain ⟨hcanonical, hgate⟩ := configGate_exact (σ := NullSink) (τ := EventLog) c c' hc hc'
  have hne : c ≠ c' := by
    intro h
    rw [h] at hdigest
    exact hdigest rfl
  have hrunning : Engine.Running c engine :=
    .run _ _ (.created NullSink.mk _ (Engine.create_ok c hc (by decide) NullSink.mk))
  exact ⟨hc, hc', mt hcanonical.mp hne, hdigest,
    (hgate (fun h => absurd h hdigest) engine EventLog.empty hrunning).mpr ⟨by decide, hne⟩⟩

/-- A state of another configuration is not refused as foreign under a window that cannot be laid
out, though both configurations pass their checks and their digests do not collide. -/
theorem configGate_lost_window :
    let engine := Engine.initial {} EventLog.empty
    ({} : EngineConfig).validate = .ok () ∧ EngineConfig.wide.validate = .ok () ∧
    Engine.create {} EventLog.empty = .ok engine ∧ ({} : EngineConfig) ≠ .wide ∧
    Digest.sha256 (Writer.bytes ({} : EngineConfig).toJson.canonical) ≠
      Digest.sha256 (Writer.bytes EngineConfig.wide.toJson.canonical) ∧
    ¬ ∃ saved asked, Engine.restore .wide engine.snapshot EventLog.empty =
      .error (.configMismatch saved asked) := by
  intro engine
  have hc := EngineConfig.default_valid
  have hwide := EngineConfig.wide_valid
  have hdigest := EngineConfig.hash_ne_wide
  refine ⟨hc, hwide, Engine.create_ok {} hc (by decide) EventLog.empty, ?_, hdigest, ?_⟩
  · intro h
    exact hdigest (congrArg EngineConfig.hash h)
  · rintro ⟨saved, asked, h⟩
    obtain ⟨hroom, _⟩ := (Engine.restore_mismatch_iff .wide hwide _ EventLog.empty _ _).mp h
    exact EngineConfig.not_reservable_wide hroom

end Replanning
