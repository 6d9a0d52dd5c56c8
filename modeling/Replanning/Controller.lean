import Replanning.Adaptation
import Replanning.GapSample

/-! The controller owns the regime and the window of the latest gap samples. A window that is long
enough is tested, and a stationary one is given up for a change of the regime. -/
namespace Replanning

structure Controller where
  config : AdaptationConfig
  regime : Regime
  window : List GapSample
  impossibleReductions : UInt32

/-- The part of a controller that its settings do not determine. -/
structure ControllerSnapshot where
  regime : Regime
  impossibleReductions : UInt32
  window : List GapSample

/-- Whether a sample has been taken up, or has shown the window to be stationary. -/
inductive Phase where
  | accumulating
  | stationaryDetected
deriving DecidableEq, Repr

structure SampleOutcome where
  phase : Phase
  /-- The length of the window with the sample, though it may have been given up since. -/
  windowLen : UInt64
  minRequired : UInt64
  test : Option DickeyFuller
  adaptation : Option Adaptation

/-- The room for a full window is set aside from the start, 32 bytes for a sample, and may not be
`2^63` bytes or more. Whether a machine has the memory below that is not modelled. -/
def AdaptationConfig.Reservable (c : AdaptationConfig) : Prop :=
  32 * c.maxWindow.toNat < 0x8000000000000000

instance (c : AdaptationConfig) : Decidable c.Reservable :=
  inferInstanceAs (Decidable (_ < _))

namespace Controller

def initial (c : AdaptationConfig) : Controller where
  config := c
  regime := ⟨c.initialTrustRegion, c.initialReplications⟩
  window := []
  impossibleReductions := 0

def create (c : AdaptationConfig) : Except CreateError Controller := do
  c.validate.mapError .invalid
  if ¬ c.Reservable then throw .capacityOverflow
  return initial c

def restore (c : AdaptationConfig) (saved : ControllerSnapshot) :
    Except RestoreError Controller := do
  let _ ← (create c).mapError .create
  if saved.regime.trustRegion < 1 || saved.regime.replications < 1 then
    throw (.belowFloor saved.regime.trustRegion saved.regime.replications)
  if c.maxWindow.toNat < saved.window.length then
    throw (.windowTooLong saved.window.length c.maxWindow)
  return ⟨c, saved.regime, saved.window, saved.impossibleReductions⟩

def snapshot (c : Controller) : ControllerSnapshot :=
  ⟨c.regime, c.impossibleReductions, c.window⟩

def minRequired (c : Controller) : UInt64 :=
  c.config.minSamples c.regime.replications

/-- The window with one more sample, for which the oldest makes room if need be. -/
def slide (c : Controller) (s : GapSample) : List GapSample :=
  (if c.config.maxWindow.toNat ≤ c.window.length then c.window.drop 1 else c.window) ++ [s]

/-- The mean variance that comes from the replications; unknown for an empty window. -/
def withinVariance (window : List GapSample) : Float :=
  if window.isEmpty then 1.0 / 0.0
  else sum (window.map GapSample.withinVariance) / ofCount window.length

def betweenVariance (window : List GapSample) : Float :=
  (sampleVariance? (window.map GapSample.mean)).getD 0.0

/-- Changes the pair on the grounds of a window, which is then given up. -/
def adapt (c : Controller) (window : List GapSample) (iteration : UInt64) (t : Option Float) :
    Adaptation × Controller :=
  let within := withinVariance window
  let between := betweenVariance window
  let action := c.regime.action within between
  (⟨iteration, action, within, between, t, window.length.toUInt64⟩,
    { c with
      regime := c.regime.apply action
      impossibleReductions := impossibleAfter c.impossibleReductions action
      window := [] })

/-- Takes up a sample, tests the window if it is long enough, and adapts if it is stationary. -/
def register (c : Controller) (s : GapSample) : SampleOutcome × Controller :=
  -- the sample is taken up before anything is tested
  let window := c.slide s
  let len := window.length.toUInt64
  if window.length < c.minRequired.toNat then
    (⟨.accumulating, len, c.minRequired, none, none⟩, { c with window := window })
  else
    let test := DickeyFuller.test c.config.criticalValue (window.map GapSample.mean)
    if test.stationary then
      let (adaptation, adapted) := c.adapt window s.iteration test.tStatistic
      (⟨.stationaryDetected, len, c.minRequired, some test, some adaptation⟩, adapted)
    else (⟨.accumulating, len, c.minRequired, some test, none⟩, { c with window := window })

end Controller

end Replanning
