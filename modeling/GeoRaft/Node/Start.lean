import GeoRaft.Node.Raft

/-!
The start of the process, and the random timeouts of a follower.

`main` takes the bounds of the timeout in milliseconds, and there are two places
that draw from between them: `main` itself before it enters the loop, and
`set_fault_detect_timer` ever after.
-/

namespace GeoRaft

open Word

/-- What `main` goes on with after it has looked at its arguments. -/
structure Config.Accepted (config : Config) : Prop where
  id : config.id < config.numNodes
  numNodes : config.numNodes ≤ 128
  bounds : config.timeoutLbMs ≤ config.timeoutUbMs
  fits : config.timeoutUbMs < 2 ^ 32

/-- From `raft_create` to the call of `raft_run`. -/
def nodeMain {σ : Type} (env : Env) (config : Config) (store : σ) : Node σ :=
  let node := raftCreate config store
  let timer := { node.timer with
    durationUsec := randomTimeoutUsec env config.timeoutLbMs config.timeoutUbMs }
  { node with timer := timerReset env timer }

/-- A draw between two bounds that fit. -/
theorem randomTimeoutUsec_of_lt {env : Env} {min max : ℕ} (h : min < max) (hfits : max < 2 ^ 32) :
    randomTimeoutUsec env min max = min + env.draw % (max - min) := by
  have hwidth : u32 ((max : ℤ) - min) = max - min := by
    rw [← Nat.cast_sub h.le]
    exact u32_of_nat (by omega)
  have hdraw : env.draw % (max - min) < max - min := Nat.mod_lt _ (by omega)
  rw [randomTimeoutUsec, if_neg (by omega), hwidth]
  exact_mod_cast u32_of_nat (n := min + env.draw % (max - min)) (by omega)

theorem randomTimeoutUsec_of_le {env : Env} {min max : ℕ} (h : max ≤ min) :
    randomTimeoutUsec env min max = min := if_pos h

theorem randomTimeoutUsec_bounds (env : Env) {min max : ℕ} (hfits : max < 2 ^ 32) :
    min ≤ randomTimeoutUsec env min max ∧ randomTimeoutUsec env min max ≤ Max.max min max := by
  rcases le_or_gt max min with h | h
  · rw [randomTimeoutUsec_of_le h]
    exact ⟨le_rfl, le_max_left _ _⟩
  · have hdraw : env.draw % (max - min) < max - min := Nat.mod_lt _ (by omega)
    rw [randomTimeoutUsec_of_lt h hfits]
    omega

/-- As many microseconds as the configured milliseconds allow. -/
def Config.Allows (config : Config) (durationUsec : ℕ) : Prop :=
  config.timeoutLbMs * 1000 ≤ durationUsec ∧ durationUsec ≤ config.timeoutUbMs * 1000

/-- The random branch of `set_fault_detect_timer`. -/
def Node.TimesOutAtRandom {σ : Type} (node : Node σ) : Prop :=
  node.config.timeoutScheme = .timeout ∨
    node.heartbeatTelemetry.numIntervals < node.heartbeatTelemetry.rampSize

variable {config : Config} {env : Env}

/-- `main` takes the milliseconds for microseconds. -/
theorem nodeMain_allows {σ : Type} (h : config.Accepted) (store : σ) :
    config.Allows (nodeMain env config store).timer.durationUsec ↔
      config.timeoutLbMs = 0 ∨ config.timeoutLbMs < config.timeoutUbMs ∧
        999 * config.timeoutLbMs ≤ env.draw % (config.timeoutUbMs - config.timeoutLbMs) := by
  have hbounds := h.bounds
  have hfits := h.fits
  show config.Allows (randomTimeoutUsec env config.timeoutLbMs config.timeoutUbMs) ↔ _
  unfold Config.Allows
  rcases hbounds.eq_or_lt with heq | hlt
  · rw [randomTimeoutUsec_of_le heq.ge]
    omega
  · rw [randomTimeoutUsec_of_lt hlt hfits]
    have hdraw : env.draw % (config.timeoutUbMs - config.timeoutLbMs) <
        config.timeoutUbMs - config.timeoutLbMs := Nat.mod_lt _ (by omega)
    generalize env.draw % (config.timeoutUbMs - config.timeoutLbMs) = r at hdraw ⊢
    omega

/-- `set_fault_detect_timer` scales them in 32 bits. -/
theorem setFaultDetectTimer_allows {σ : Type} {node : Node σ} (h : node.config.Accepted)
    (hrandom : node.TimesOutAtRandom) :
    node.config.Allows (node.setFaultDetectTimer env).timer.durationUsec ↔
      node.config.timeoutLbMs * 1000 < 2 ^ 32 := by
  have hbounds := h.bounds
  have htimer : (node.setFaultDetectTimer env).timer.durationUsec =
      randomTimeoutUsec env (u32 (node.config.timeoutLbMs * 1000))
        (u32 (node.config.timeoutUbMs * 1000)) := by
    unfold Node.TimesOutAtRandom at hrandom
    rw [Node.setFaultDetectTimer]
    dsimp only
    rw [if_pos hrandom]
    rfl
  have hmin := u32_lt ((node.config.timeoutLbMs * 1000 : ℕ) : ℤ)
  have hmax := u32_lt ((node.config.timeoutUbMs * 1000 : ℕ) : ℤ)
  have hle := u32_le (node.config.timeoutUbMs * 1000)
  obtain ⟨hlo, hhi⟩ := @randomTimeoutUsec_bounds env
    (u32 ((node.config.timeoutLbMs * 1000 : ℕ) : ℤ)) _ hmax
  push_cast at hmin hmax hle hlo hhi
  rw [htimer]
  unfold Config.Allows
  constructor
  · -- whatever was drawn is a number of 32 bits
    rintro ⟨hge, -⟩
    omega
  · intro hfits
    have hexact : u32 ((node.config.timeoutLbMs : ℤ) * 1000) = node.config.timeoutLbMs * 1000 := by
      exact_mod_cast u32_of_nat (n := node.config.timeoutLbMs * 1000) hfits
    rw [hexact] at hlo hhi ⊢
    omega

/-- The armed duration is in range, at the start and later on. -/
theorem random_timeouts_in_range {σ : Type} {node : Node σ} (h : node.config.Accepted) (store : σ)
    (hrandom : node.TimesOutAtRandom) :
    (node.config.Allows (nodeMain env node.config store).timer.durationUsec ↔
      node.config.timeoutLbMs = 0 ∨ node.config.timeoutLbMs < node.config.timeoutUbMs ∧
        999 * node.config.timeoutLbMs ≤
          env.draw % (node.config.timeoutUbMs - node.config.timeoutLbMs)) ∧
    (node.config.Allows (node.setFaultDetectTimer env).timer.durationUsec ↔
      node.config.timeoutLbMs * 1000 < 2 ^ 32) :=
  ⟨nodeMain_allows h store, setFaultDetectTimer_allows h hrandom⟩

/-- A follower with the defaults of one second to two. -/
theorem random_timeouts_in_range_plain :
    (Config.plain 3 0).Allows
      ((nodeMain ⟨0, 7⟩ (.plain 3 0) Disk.init).setFaultDetectTimer ⟨9, 7⟩).timer.durationUsec := by
  have haccepted : (Config.plain 3 0).Accepted := by constructor <;> decide
  exact (@random_timeouts_in_range ⟨9, 7⟩ Disk (nodeMain ⟨0, 7⟩ (.plain 3 0) Disk.init) haccepted
    Disk.init (.inl rfl)).2.mpr (by decide)

/-- The same follower is armed with 1007 microseconds when it starts. -/
theorem random_timeout_too_short :
    (Config.plain 3 0).Accepted ∧
      ¬(Config.plain 3 0).Allows (nodeMain ⟨0, 7⟩ (.plain 3 0) Disk.init).timer.durationUsec := by
  refine ⟨by constructor <;> decide, fun h => ?_⟩
  exact absurd h.1 (by decide +kernel)

end GeoRaft
