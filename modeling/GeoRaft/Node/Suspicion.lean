import Mathlib.Algebra.Order.Archimedean.Basic
import Mathlib.Data.Rat.Floor
import GeoRaft.Node.Detector
import GeoRaft.Node.Loop
import GeoRaft.Node.Start

/-!
Silence and suspicion.

The detector compares the time since the last heartbeat with the mean of the gaps it
has seen. The gaps lie one behind the other before the last heartbeat, so their sum is
a time of the clock, and a mean above zero is all that it takes for silence to tell.
-/

namespace GeoRaft

namespace HeartbeatTelemetry

variable {t t' : HeartbeatTelemetry} {now : ℕ}

/-- The verdict after so long a silence. -/
def suspects (t : HeartbeatTelemetry) (intervalUsec : ℕ) : Bool :=
  let mean := t.computeMeanInterval
  if mean ≤ 0 then false else decide (1 / mean * intervalUsec * 0.4342944819 > t.threshold)

theorem checkLeaderFailure_eq (env : Env) (t : HeartbeatTelemetry) :
    checkLeaderFailure env t = t.suspects (elapsed env.now t.lastHeartbeatUsec) := rfl

/-- The gaps are times before the last heartbeat, and that is a time before now. -/
structure Tracks (now : ℕ) (t : HeartbeatTelemetry) : Prop where
  gaps : t.intervalsUsec.sum ≤ t.lastHeartbeatUsec
  last : t.lastHeartbeatUsec ≤ now

theorem tracks_init (now : ℕ) (threshold : ℚ) (w rampSize : ℕ) :
    Tracks now (init threshold w rampSize) := by
  constructor <;> simp [init]

theorem tracks_reset (now : ℕ) (t : HeartbeatTelemetry) : Tracks now t.reset := by
  constructor <;> simp [reset]

theorem Tracks.later (h : Tracks now t) {now' : ℕ} (hle : now ≤ now') : Tracks now' t :=
  ⟨h.gaps, h.last.trans hle⟩

theorem sum_set_le (xs : List ℕ) (i x : ℕ) : (xs.set i x).sum ≤ xs.sum + x := by
  induction xs generalizing i with
  | nil => simp
  | cons y xs ih =>
      cases i with
      | zero =>
          rw [List.set_cons_zero, List.sum_cons, List.sum_cons]
          omega
      | succ i =>
          have := ih i
          rw [List.set_cons_succ, List.sum_cons, List.sum_cons]
          omega

theorem Tracks.record (h : Tracks now t) (hfits : now < 2 ^ 64) :
    Tracks now (t.recordInterval now) := by
  have hgaps := h.gaps
  have hlast := h.last
  rw [recordInterval]
  split
  · rename_i hfirst
    exact ⟨show t.intervalsUsec.sum ≤ now by omega, le_rfl⟩
  · rw [elapsed_of_le hlast hfits]
    refine ⟨?_, le_rfl⟩
    have hset := sum_set_le t.intervalsUsec t.intervalIndex (now - t.lastHeartbeatUsec)
    show (t.intervalsUsec.set _ _).sum ≤ now
    omega

theorem Tracks.reports (h : Tracks now t) (hfits : now < 2 ^ 64) (hr : Reports now t t') :
    Tracks now t' := by
  induction hr with
  | refl => exact h
  | tail _ hstep ih =>
      rcases hstep with rfl | rfl
      · exact tracks_reset now _
      · exact ih.record hfits

/-- The mean of what the ring holds is above zero as soon as one gap is. -/
theorem Tracks.mean_pos_iff (h : Tracks now t) (hfits : now < 2 ^ 64) :
    0 < t.computeMeanInterval ↔ ∃ gap ∈ t.intervalsUsec.take t.numIntervals, 0 < gap := by
  have hsum : (t.intervalsUsec.take t.numIntervals).sum ≤ t.intervalsUsec.sum :=
    (List.take_sublist _ _).sum_le_sum (by simp)
  rw [computeMeanInterval_eq (by have := h.gaps; have := h.last; omega)]
  constructor
  · intro hpos
    by_contra! hzero
    have : (t.intervalsUsec.take t.numIntervals).sum = 0 :=
      List.sum_eq_zero fun gap hgap => Nat.le_zero.mp (hzero gap hgap)
    rw [this, Nat.cast_zero, zero_div] at hpos
    exact absurd hpos (lt_irrefl 0)
  · rintro ⟨gap, hgap, hpos⟩
    have hle := List.single_le_sum (fun x _ => Nat.zero_le x) gap hgap
    have hnum : t.numIntervals ≠ 0 := by
      intro hzero
      rw [hzero, List.take_zero] at hgap
      exact absurd hgap List.not_mem_nil
    have hsum : (0 : ℚ) < (t.intervalsUsec.take t.numIntervals).sum := by
      exact_mod_cast lt_of_lt_of_le hpos hle
    have hcount : (0 : ℚ) < t.numIntervals := by exact_mod_cast Nat.pos_of_ne_zero hnum
    positivity

/-- How long a silence has to be, as soon as there is a mean. -/
theorem suspects_of_mean (h : 0 < t.computeMeanInterval) (intervalUsec : ℕ) :
    t.suspects intervalUsec = true ↔
      t.threshold * t.computeMeanInterval < intervalUsec * 0.4342944819 := by
  have hphi : 1 / t.computeMeanInterval * intervalUsec * 0.4342944819 =
      intervalUsec * 0.4342944819 / t.computeMeanInterval := by ring
  rw [suspects, if_neg (not_le.mpr h), decide_eq_true_iff, hphi, gt_iff_lt, lt_div_iff₀ h]

/-- A longer silence is not less suspicious. -/
theorem suspects_mono {i j : ℕ} (hij : i ≤ j) (h : t.suspects i = true) : t.suspects j = true := by
  by_cases hmean : 0 < t.computeMeanInterval
  · rw [suspects_of_mean hmean] at h ⊢
    refine h.trans_le ?_
    have : (i : ℚ) ≤ j := by exact_mod_cast hij
    gcongr
  · rw [suspects, if_pos (not_lt.mp hmean)] at h
    exact absurd h (by simp)

/-- A silence that is long enough exists just if the mean is above zero. -/
theorem suspects_eventually_iff (last : ℕ) :
    (∃ t₀, ∀ now, t₀ ≤ now → t.suspects (now - last) = true) ↔ 0 < t.computeMeanInterval := by
  constructor
  · rintro ⟨t₀, h⟩
    by_contra hmean
    have hverdict := h t₀ le_rfl
    rw [suspects, if_pos (not_lt.mp hmean)] at hverdict
    exact absurd hverdict (by simp)
  · intro hmean
    obtain ⟨k, hk⟩ := exists_nat_gt (t.threshold * t.computeMeanInterval / 0.4342944819)
    refine ⟨last + k, fun now hnow => suspects_mono (i := k) (by omega) ?_⟩
    rw [suspects_of_mean hmean]
    exact (div_lt_iff₀ (by norm_num)).mp hk

end HeartbeatTelemetry

namespace Node

open HeartbeatTelemetry

variable {σ : Type} [Storage σ] {node : Node σ} {now : ℕ}

theorem runTurn_reports (node : Node σ) (turn : Turn) :
    Reports turn.env.now node.heartbeatTelemetry (node.runTurn turn).2.heartbeatTelemetry := by
  rw [runTurn]
  split
  · split
    · exact .refl
    · split
      · exact .refl
      · dsimp only
        unfold raftHandleWire
        split
        · exact .refl
        · exact (raftHandleRpc_ticks turn.env node _).telemetry
  · split
    · exact (raftHandleTimeout_ticks turn.env node).telemetry
    · exact .refl

/-- Whenever a turn starts, the detector tracks the clock. -/
theorem tracks_of_mem {turns : List Turn} {p : Pass σ} (h : Timely now turns)
    (ht : Tracks now node.heartbeatTelemetry) (hp : p ∈ raftRun turns node) :
    Tracks p.turn.clock p.node.heartbeatTelemetry ∧ p.turn.clock < 2 ^ 64 := by
  induction turns generalizing node now with
  | nil => exact absurd hp (by simp [raftRun])
  | cons turn turns ih =>
      obtain ⟨hclock, hafter, hnow, hfits, hrest⟩ := h
      rw [raftRun] at hp
      rcases List.mem_cons.mp hp with rfl | hp
      · exact ⟨ht.later hclock, show turn.clock < _ by omega⟩
      · split at hp
        · exact absurd hp List.not_mem_nil
        · refine @ih (node.runTurn turn).2.settled turn.env.now hrest ?_ hp
          exact (ht.later (by omega)).reports hfits (runTurn_reports node turn)

/-- A follower suspects a silent leader in the end just if it has seen a gap, and does
not take a suspicion back. The clock has `2 ^ 64` readings, and it does so at one of
them just if the threshold is below what the longest silence comes to. -/
theorem silence_suspected {env : Env} {config : Config} {store : σ} {turns : List Turn} {p : Pass σ}
    (h : Timely env.now turns) (hp : p ∈ raftRun turns (nodeMain env config store)) :
    ((∃ t₀, ∀ now, t₀ ≤ now → p.node.heartbeatTelemetry.suspects
        (now - p.node.heartbeatTelemetry.lastHeartbeatUsec) = true) ↔
      ∃ gap ∈ p.node.heartbeatTelemetry.intervalsUsec.take p.node.heartbeatTelemetry.numIntervals,
        0 < gap) ∧
    (∀ env' : Env, p.turn.clock ≤ env'.now → env'.now < 2 ^ 64 →
      checkLeaderFailure env' p.node.heartbeatTelemetry = p.node.heartbeatTelemetry.suspects
        (env'.now - p.node.heartbeatTelemetry.lastHeartbeatUsec) ∧
      ∀ env'' : Env, env'.now ≤ env''.now → env''.now < 2 ^ 64 →
        checkLeaderFailure env' p.node.heartbeatTelemetry = true →
        checkLeaderFailure env'' p.node.heartbeatTelemetry = true) ∧
    ((∃ t₀ < 2 ^ 64, ∀ env' : Env, p.turn.clock ≤ env'.now → t₀ ≤ env'.now → env'.now < 2 ^ 64 →
        checkLeaderFailure env' p.node.heartbeatTelemetry = true) ↔
      (∃ gap ∈ p.node.heartbeatTelemetry.intervalsUsec.take p.node.heartbeatTelemetry.numIntervals,
        0 < gap) ∧
      p.node.heartbeatTelemetry.threshold * p.node.heartbeatTelemetry.computeMeanInterval <
        (2 ^ 64 - 1 - p.node.heartbeatTelemetry.lastHeartbeatUsec : ℕ) * 0.4342944819) := by
  obtain ⟨htracks, hfits⟩ := tracks_of_mem h (tracks_init env.now _ _ _) hp
  have hlast := htracks.last
  have hmean := htracks.mean_pos_iff hfits
  have hverdict : ∀ env' : Env, p.turn.clock ≤ env'.now → env'.now < 2 ^ 64 →
      checkLeaderFailure env' p.node.heartbeatTelemetry = p.node.heartbeatTelemetry.suspects
        (env'.now - p.node.heartbeatTelemetry.lastHeartbeatUsec) := by
    intro env' hclock hfits'
    rw [checkLeaderFailure_eq, elapsed_of_le (hlast.trans hclock) hfits']
  generalize p.node.heartbeatTelemetry = t at hlast hmean hverdict ⊢
  refine ⟨(suspects_eventually_iff _).trans hmean, ?_, ?_⟩
  · intro env' hclock hfits'
    refine ⟨hverdict env' hclock hfits', fun env'' hlater hfits'' hsuspects => ?_⟩
    rw [hverdict env' hclock hfits'] at hsuspects
    rw [hverdict env'' (hclock.trans hlater) hfits'']
    exact suspects_mono (by omega) hsuspects
  · have hmax : 2 ^ 64 - 1 < 2 ^ 64 := by omega
    rw [← hmean]
    constructor
    · rintro ⟨t₀, hlt, hall⟩
      -- the last reading of the clock
      have hend : checkLeaderFailure ⟨2 ^ 64 - 1, 0⟩ t = true :=
        hall ⟨2 ^ 64 - 1, 0⟩ (Nat.le_pred_of_lt hfits) (Nat.le_pred_of_lt hlt) hmax
      rw [hverdict _ (Nat.le_pred_of_lt hfits) hmax] at hend
      have hpos : 0 < t.computeMeanInterval :=
        (suspects_eventually_iff t.lastHeartbeatUsec).mp
          ⟨2 ^ 64 - 1, fun now hnow => suspects_mono (by dsimp only; omega) hend⟩
      exact ⟨hpos, (suspects_of_mean hpos _).mp hend⟩
    · rintro ⟨hpos, hbound⟩
      refine ⟨2 ^ 64 - 1, hmax, fun env' hclock hlate hfits' => ?_⟩
      have hnow : env'.now = 2 ^ 64 - 1 := by omega
      rw [hverdict env' hclock hfits', hnow]
      exact (suspects_of_mean hpos _).mpr hbound

/-- Accrual detection without a ramp. -/
def rampless : Config :=
  { Config.plain 3 0 with timeoutScheme := .accrual, accrualRampSize := 0 }

/-- Nothing comes in before its timer runs out. -/
def silentTurn : Turn := ⟨2000, 0, .blank, 2000, ⟨2000, 0⟩⟩

/-- With no sample the mean is zero, and the accrual branch is in charge nevertheless. -/
theorem silence_never_suspected :
    ∃ p ∈ raftRun [silentTurn] (nodeMain ⟨0, 7⟩ rampless Disk.init), p.node.role = .follower ∧
      ¬p.node.TimesOutAtRandom ∧ p.node.heartbeatTelemetry.windowSize = 4 ∧
      ¬∃ t₀, ∀ now, t₀ ≤ now → p.node.heartbeatTelemetry.suspects
        (now - p.node.heartbeatTelemetry.lastHeartbeatUsec) = true := by
  refine ⟨⟨nodeMain ⟨0, 7⟩ rampless Disk.init, silentTurn, .timeout⟩, ?_, rfl, ?_, rfl, ?_⟩
  · rw [raftRun]
    exact List.mem_cons_self
  · rintro (h | h)
    · exact absurd h (by decide)
    · exact absurd h (by decide)
  · intro h
    exact absurd ((suspects_eventually_iff _).mp h) (by decide)

/-- A heartbeat of term 0. -/
def heard (now : ℕ) : Turn :=
  ⟨now, 1, { WirePkt.blank with header := ⟨0, 1, 24, 0⟩ }, now, ⟨now, 0⟩⟩

def heardTwice : List (Pass Disk) :=
  raftRun [heard 10, heard 30, silentTurn] (nodeMain ⟨0, 7⟩ rampless Disk.init)

/-- Two heartbeats are enough. -/
theorem silence_suspected_twice :
    ∃ p ∈ heardTwice, ∃ t₀, ∀ now, t₀ ≤ now → p.node.heartbeatTelemetry.suspects
      (now - p.node.heartbeatTelemetry.lastHeartbeatUsec) = true := by
  have hgaps : (heardTwice[2]?.map fun p =>
      p.node.heartbeatTelemetry.intervalsUsec.take p.node.heartbeatTelemetry.numIntervals) =
        some [20] := by decide +kernel
  obtain ⟨p, hp, hgap⟩ := Option.map_eq_some_iff.mp hgaps
  have hmem : p ∈ heardTwice := List.mem_of_getElem? hp
  have htimely : Timely 0 [heard 10, heard 30, silentTurn] := by simp [Timely, heard, silentTurn]
  refine ⟨p, hmem, (silence_suspected htimely hmem).1.mpr ⟨20, ?_, by decide⟩⟩
  rw [hgap]
  exact List.mem_singleton_self 20

end Node

end GeoRaft
