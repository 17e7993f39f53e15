import VulosRelay.Lib.GoTime
import VulosRelay.Lib.System
import Mathlib.Algebra.Order.Field.Rat

/-!
# The saturation detector of the autoscaler

The model of `Detector` (`tunnel/autoscale/autoscale.go`), with ratios as rational numbers. Beside
the detector runs the list of its observations, latest first, each with the action it returned.
-/

namespace VulosRelay.Server.Autoscale

inductive Action where
  | none
  | scaleUp
  | scaleDown
  deriving DecidableEq

structure DetectorConfig where
  high : ℚ
  low : ℚ
  sustain : Int64
  cooldown : Int64
  minNodes : Int
  maxNodes : Int

def durationField (v default : Int64) : Int64 := if v < 0 then 0 else if v = 0 then default else v

def DetectorConfig.applyDefaults (c : DetectorConfig) : DetectorConfig :=
  let high := if c.high ≤ 0 then 4 / 5 else c.high
  let low := if c.low ≤ 0 then 3 / 10 else c.low
  { high := high
    low := if high ≤ low then high / 2 else low
    sustain := durationField c.sustain 60000000000
    cooldown := durationField c.cooldown 180000000000
    minNodes := if c.minNodes ≤ 0 then 1 else c.minNodes
    maxNodes := c.maxNodes }

structure Detector where
  cfg : DetectorConfig
  aboveSince : Int
  belowSince : Int
  lastAction : Int

def newDetector (cfg : DetectorConfig) : Detector :=
  ⟨cfg.applyDefaults, GoTime.zero, GoTime.zero, GoTime.zero⟩

structure Observation where
  ratio : ℚ
  nodes : Int
  now : Int

namespace Detector

def cooldownElapsed (d : Detector) (now : Int) : Bool :=
  d.lastAction = GoTime.zero ∨ d.cfg.cooldown.toInt ≤ GoTime.sub now d.lastAction

def observe (d : Detector) (o : Observation) : Detector × Action :=
  if d.cfg.high ≤ o.ratio then
    let above := if d.aboveSince = GoTime.zero then o.now else d.aboveSince
    let seen := { d with belowSince := GoTime.zero, aboveSince := above }
    if GoTime.sub o.now above < d.cfg.sustain.toInt then (seen, .none)
    else if d.cooldownElapsed o.now = false then (seen, .none)
    else if 0 < d.cfg.maxNodes ∧ d.cfg.maxNodes ≤ o.nodes then (seen, .none)
    else ({ seen with lastAction := o.now, aboveSince := GoTime.zero }, .scaleUp)
  else if o.ratio ≤ d.cfg.low then
    let below := if d.belowSince = GoTime.zero then o.now else d.belowSince
    let seen := { d with aboveSince := GoTime.zero, belowSince := below }
    if GoTime.sub o.now below < d.cfg.sustain.toInt then (seen, .none)
    else if d.cooldownElapsed o.now = false then (seen, .none)
    else if o.nodes ≤ d.cfg.minNodes then (seen, .none)
    else ({ seen with lastAction := o.now, belowSince := GoTime.zero }, .scaleDown)
  else ({ d with aboveSince := GoTime.zero, belowSince := GoTime.zero }, .none)

end Detector

structure Run where
  detector : Detector
  past : List (Observation × Action)

def Run.observe (r : Run) (o : Observation) : Run :=
  ⟨(r.detector.observe o).1, (o, (r.detector.observe o).2) :: r.past⟩

def autoscaler (cfg : DetectorConfig) : System Run Observation :=
  ⟨fun r => r = ⟨newDetector cfg, []⟩, fun r o => some (r.observe o)⟩

end VulosRelay.Server.Autoscale
