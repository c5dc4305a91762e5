import GeoRaft.Node.Types

/-!
The timer of a node and the accrual failure detector.

`Env` is what a handler reads from outside: the clock of `get_usec` and the next
value of `rand`. One event of the node runs on one reading of each. The
detector's arithmetic on `double` is taken over the rationals.
-/

namespace GeoRaft

open Word

structure Env where
  now : ℕ
  draw : ℕ
  deriving DecidableEq, Repr

structure RaftTimer where
  startUsec : ℕ
  durationUsec : ℕ
  deriving DecidableEq, Repr

def timerReset (env : Env) (timer : RaftTimer) : RaftTimer :=
  { timer with startUsec := env.now }

def randomTimeoutUsec (env : Env) (min max : ℕ) : ℕ :=
  if max ≤ min then min else u32 (min + env.draw % u32 ((max : ℤ) - min))

structure HeartbeatTelemetry where
  intervalsUsec : List ℕ
  windowSize : ℕ
  rampSize : ℕ
  threshold : ℚ
  intervalIndex : ℕ
  numIntervals : ℕ
  lastHeartbeatUsec : ℕ
  deriving DecidableEq, Repr

namespace HeartbeatTelemetry

def init (threshold : ℚ) (windowSize rampSize : ℕ) : HeartbeatTelemetry where
  intervalsUsec := List.replicate windowSize 0
  windowSize := windowSize
  rampSize := rampSize
  threshold := threshold
  intervalIndex := 0
  numIntervals := 0
  lastHeartbeatUsec := 0

/-- What `calloc` hands out for `n` elements: zeroes, or the null pointer, which has none. -/
def calloc (granted : Bool) (n : ℕ) : List ℕ := if granted then List.replicate n 0 else []

/-- `heartbeat_telemetry_init` does not look at what `calloc` returns. The rest of the
model takes it to succeed. -/
def initGranted (granted : Bool) (threshold : ℚ) (windowSize rampSize : ℕ) : HeartbeatTelemetry :=
  { init threshold windowSize rampSize with intervalsUsec := calloc granted windowSize }

def reset (telemetry : HeartbeatTelemetry) : HeartbeatTelemetry :=
  { telemetry with
    intervalsUsec := List.replicate telemetry.windowSize 0
    intervalIndex := 0
    numIntervals := 0
    lastHeartbeatUsec := 0 }

def computeMeanInterval (telemetry : HeartbeatTelemetry) : ℚ :=
  if telemetry.numIntervals = 0 then 0
  else
    let sum : ℕ := (telemetry.intervalsUsec.take telemetry.numIntervals).sum % 2 ^ 64
    sum / telemetry.numIntervals

/-- The difference of two readings of the clock, of type `uint64_t`. -/
def elapsed (now last : ℕ) : ℕ := (((now : ℤ) - last) % 2 ^ 64).toNat

def recordInterval (telemetry : HeartbeatTelemetry) (currentTimeUsec : ℕ) :
    HeartbeatTelemetry :=
  if telemetry.lastHeartbeatUsec = 0 then
    { telemetry with lastHeartbeatUsec := currentTimeUsec }
  else
    let intervalUsec := elapsed currentTimeUsec telemetry.lastHeartbeatUsec
    { telemetry with
      lastHeartbeatUsec := currentTimeUsec
      intervalsUsec := telemetry.intervalsUsec.set telemetry.intervalIndex intervalUsec
      intervalIndex := (telemetry.intervalIndex + 1) % telemetry.windowSize
      numIntervals :=
        if telemetry.numIntervals < telemetry.windowSize then telemetry.numIntervals + 1
        else telemetry.numIntervals }

def checkLeaderFailure (env : Env) (telemetry : HeartbeatTelemetry) : Bool :=
  let currentIntervalUsec := elapsed env.now telemetry.lastHeartbeatUsec
  let mean := telemetry.computeMeanInterval
  if mean ≤ 0 then false
  else
    let lambda := 1 / mean
    let phi := lambda * currentIntervalUsec * 0.4342944819
    decide (phi > telemetry.threshold)

end HeartbeatTelemetry

/-- `ACCRUAL_INTERVAL_MS` and `HEARTBEAT_INTERVAL_USEC`. -/
def accrualIntervalMs : ℕ := 100
def heartbeatIntervalUsec : ℕ := 500 * 1000

end GeoRaft
