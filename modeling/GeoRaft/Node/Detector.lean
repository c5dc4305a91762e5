import Mathlib.Algebra.Order.BigOperators.Group.List
import Mathlib.Tactic.Linarith
import Mathlib.Tactic.Positivity
import GeoRaft.Library.Ring
import GeoRaft.Node.Accrual

/-!
What the failure detector remembers, and what it makes of it.

The first heartbeat after a reset is only a time. From the second on the gaps to the
one before go round a ring, of which the mean is taken as far as it is filled.
-/

namespace GeoRaft.HeartbeatTelemetry

variable {t t₀ : HeartbeatTelemetry} {w : ℕ}

/-! ### The window -/

/-- The times between consecutive heartbeats. -/
def gaps : List ℕ → List ℕ
  | a :: b :: times => (b - a) :: gaps (b :: times)
  | _ => []

theorem length_gaps (times : List ℕ) : (gaps times).length = times.length - 1 := by
  induction times with
  | nil => rfl
  | cons a times ih =>
      cases times with
      | nil => rfl
      | cons b times =>
          rw [gaps, List.length_cons, ih]
          simp

theorem gaps_snoc {times : List ℕ} (h : times ≠ []) (x : ℕ) :
    gaps (times ++ [x]) = gaps times ++ [x - times.getLast h] := by
  induction times with
  | nil => exact absurd rfl h
  | cons a times ih =>
      cases times with
      | nil => rfl
      | cons b times =>
          rw [List.cons_append, List.cons_append, gaps, ← List.cons_append,
            ih (List.cons_ne_nil _ _), gaps, List.cons_append, List.getLast_cons (List.cons_ne_nil _ _)]

/-- A detector that was just made, or reset. -/
def Fresh (w : ℕ) (t : HeartbeatTelemetry) : Prop :=
  (∃ threshold rampSize, t = init threshold w rampSize) ∨
    ∃ t' : HeartbeatTelemetry, t'.windowSize = w ∧ t = t'.reset

/-- After the first heartbeat: the gaps so far have gone round the ring. -/
structure Holds (w : ℕ) (t : HeartbeatTelemetry) (last : ℕ) (xs : List ℕ) : Prop where
  windowSize : t.windowSize = w
  lastHeartbeatUsec : t.lastHeartbeatUsec = last
  ring : (t.intervalsUsec, t.intervalIndex) = xs.foldl (Ring.push w) (List.replicate w 0, 0)
  numIntervals : t.numIntervals = min xs.length w

theorem elapsed_of_le {now last : ℕ} (h : last ≤ now) (hfits : now < 2 ^ 64) :
    elapsed now last = now - last := by
  unfold elapsed
  omega

theorem Fresh.record (h : Fresh w t) (x : ℕ) : Holds w (t.recordInterval x) x [] := by
  rcases h with ⟨threshold, rampSize, rfl⟩ | ⟨t', rfl, rfl⟩
  · exact ⟨rfl, rfl, rfl, (Nat.zero_min w).symm⟩
  · exact ⟨rfl, rfl, rfl, (Nat.zero_min t'.windowSize).symm⟩

theorem Holds.record {last x : ℕ} {xs : List ℕ} (h : Holds w t last xs) (hpos : 0 < last)
    (hlt : last < x) (hfits : x < 2 ^ 64) : Holds w (t.recordInterval x) x (xs ++ [x - last]) := by
  have hne : ¬t.lastHeartbeatUsec = 0 := by
    rw [h.lastHeartbeatUsec]
    omega
  have hgap : elapsed x t.lastHeartbeatUsec = x - last := by
    rw [h.lastHeartbeatUsec, elapsed_of_le hlt.le hfits]
  have hring := h.ring
  rw [recordInterval, if_neg hne, hgap]
  refine ⟨h.windowSize, rfl, ?_, ?_⟩
  · rw [List.foldl_append, ← hring, h.windowSize]
    rfl
  · dsimp only
    rw [h.numIntervals, h.windowSize, List.length_append, List.length_singleton]
    split <;> omega

/-- Heartbeats at these times, each later than the one before. -/
theorem holds_foldl (h : Fresh w t₀) {times : List ℕ} (hne : times ≠ [])
    (hfits : ∀ x ∈ times, 0 < x ∧ x < 2 ^ 64) (hinc : times.Pairwise (· < ·)) :
    Holds w (times.foldl recordInterval t₀) (times.getLast hne) (gaps times) := by
  induction times using List.reverseRecOn with
  | nil => exact absurd rfl hne
  | append_singleton times x ih =>
      rw [List.foldl_append, List.foldl_cons, List.foldl_nil, List.getLast_append_singleton]
      rcases eq_or_ne times [] with rfl | hnil
      · exact h.record x
      · rw [gaps_snoc hnil]
        obtain ⟨hinc', -, hlast⟩ := List.pairwise_append.mp hinc
        have hmem := List.getLast_mem hnil
        have hx := hfits x (by simp)
        have hbefore := ih hnil (fun y hy => hfits y (by simp [hy])) hinc'
        exact hbefore.record (hfits _ (by simp [hmem])).1 (hlast _ hmem x (by simp)) hx.2

/-- The mean of a ring whose sum fits. -/
theorem computeMeanInterval_eq (h : (t.intervalsUsec.take t.numIntervals).sum < 2 ^ 64) :
    t.computeMeanInterval = ((t.intervalsUsec.take t.numIntervals).sum : ℚ) / t.numIntervals := by
  rw [computeMeanInterval]
  split
  · rename_i hzero
    rw [hzero, Nat.cast_zero, div_zero]
  · dsimp only
    rw [Nat.mod_eq_of_lt h]

/-- After `k + 1` heartbeats the detector holds the last `min k w` gaps. -/
theorem detector_window {k : ℕ} (hw : 1 ≤ w) (h : Fresh w t₀) {times : List ℕ}
    (hlen : times.length = k + 1) (hfits : ∀ x ∈ times, 0 < x ∧ x < 2 ^ 64)
    (hinc : times.Pairwise (· < ·)) :
    (times.foldl recordInterval t₀).numIntervals = min k w ∧
      (times.foldl recordInterval t₀).intervalIndex = k % w ∧
      ((times.foldl recordInterval t₀).intervalsUsec.take
        (times.foldl recordInterval t₀).numIntervals).Perm ((gaps times).drop (k - min k w)) ∧
      (((gaps times).drop (k - min k w)).sum < 2 ^ 64 →
        (times.foldl recordInterval t₀).computeMeanInterval =
          ((gaps times).drop (k - min k w)).sum / (min k w : ℕ)) := by
  have hne : times ≠ [] := List.ne_nil_of_length_pos (by omega)
  have hholds := holds_foldl h hne hfits hinc
  generalize times.foldl recordInterval t₀ = t at hholds ⊢
  have hk : (gaps times).length = k := by rw [length_gaps, hlen, Nat.add_sub_cancel]
  have hring := hholds.ring
  rw [Ring.foldl_push (by omega), hk] at hring
  obtain ⟨hbuf, hidx⟩ := Prod.mk.inj hring
  have hperm := Ring.perm_wrapped (w := w) (by omega) 0 (gaps times)
  rw [hk, ← hbuf] at hperm
  have hnum := hholds.numIntervals
  rw [hk] at hnum
  refine ⟨hnum, hidx, by rw [hnum]; exact hperm, fun hsum => ?_⟩
  have hsame := hperm.sum_eq
  rw [computeMeanInterval_eq (by rw [hnum, hsame]; exact hsum), hnum, hsame]

/-- Five heartbeats in a window of three. -/
theorem detector_window_five :
    (([10, 12, 15, 19, 24].foldl recordInterval (init 1 3 2)).intervalsUsec.take 3).Perm [3, 4, 5] := by
  have hwindow := @detector_window (init 1 3 2) 3 4 (by decide) (.inl ⟨1, 2, rfl⟩) [10, 12, 15, 19, 24]
    rfl (by decide) (by decide)
  exact hwindow.2.2.1

/-! ### Indices and divisors -/

/-- A write to the buffer, which fails outside of it. -/
def write (buf : List ℕ) (i x : ℕ) : Option (List ℕ) :=
  if i < buf.length then some (buf.set i x) else none

/-- A remainder, which fails if there is nothing to divide by. -/
def remainder (a b : ℕ) : Option ℕ := if b = 0 then none else some (a % b)

def quotient (a b : ℚ) : Option ℚ := if b = 0 then none else some (a / b)

/-- `heartbeat_telemetry_reset`, index by index. -/
def resetChecked (t : HeartbeatTelemetry) : Option HeartbeatTelemetry := do
  let intervalsUsec ← (List.range t.windowSize).foldlM (fun buf i => write buf i 0) t.intervalsUsec
  return { t with
    intervalsUsec := intervalsUsec
    intervalIndex := 0
    numIntervals := 0
    lastHeartbeatUsec := 0 }

/-- `compute_mean_interval`, index by index. -/
def meanChecked (t : HeartbeatTelemetry) : Option ℚ :=
  if t.numIntervals = 0 then some 0
  else do
    let sum ← (List.range t.numIntervals).foldlM
      (fun (sum i : ℕ) => t.intervalsUsec[i]?.map fun x => (sum + x) % 2 ^ 64) 0
    quotient sum t.numIntervals

/-- `heartbeat_telemetry_record_interval`, where an index or a divisor may fail. -/
def recordChecked (t : HeartbeatTelemetry) (currentTimeUsec : ℕ) : Option HeartbeatTelemetry :=
  if t.lastHeartbeatUsec = 0 then some { t with lastHeartbeatUsec := currentTimeUsec }
  else do
    let intervalUsec := elapsed currentTimeUsec t.lastHeartbeatUsec
    let intervalsUsec ← write t.intervalsUsec t.intervalIndex intervalUsec
    let intervalIndex ← remainder (t.intervalIndex + 1) t.windowSize
    return { t with
      lastHeartbeatUsec := currentTimeUsec
      intervalsUsec := intervalsUsec
      intervalIndex := intervalIndex
      numIntervals := if t.numIntervals < t.windowSize then t.numIntervals + 1 else t.numIntervals }

/-- `heartbeat_telemetry_check_leader_failure`, where an index or a divisor may fail. -/
def checkChecked (env : Env) (t : HeartbeatTelemetry) : Option Bool := do
  let mean ← t.meanChecked
  if mean ≤ 0 then return false
  else
    let lambda ← quotient 1 mean
    let phi := lambda * elapsed env.now t.lastHeartbeatUsec * 0.4342944819
    return decide (phi > t.threshold)

/-- What a node does to its detector: heartbeats, changes of role and timeouts. -/
inductive DetectorOp
  | record (now : ℕ)
  | reset
  | check (env : Env)
  deriving DecidableEq

namespace DetectorOp

def apply (t : HeartbeatTelemetry) : DetectorOp → HeartbeatTelemetry
  | record now => t.recordInterval now
  | reset => t.reset
  | check _ => t

/-- As `apply`, with every access looked at. -/
def run (t : HeartbeatTelemetry) : DetectorOp → Option HeartbeatTelemetry
  | record now => t.recordChecked now
  | reset => t.resetChecked
  | check env => (t.checkChecked env).map fun _ => t

/-- The operation records no gap: the heartbeat is the first one since a reset. -/
def NoGap (t : HeartbeatTelemetry) : DetectorOp → Prop
  | record _ => t.lastHeartbeatUsec = 0
  | _ => True

end DetectorOp

/-- `P` of every operation, at the state it finds. -/
def EveryOp (P : HeartbeatTelemetry → DetectorOp → Prop) :
    List DetectorOp → HeartbeatTelemetry → Prop
  | [], _ => True
  | op :: ops, t => P t op ∧ EveryOp P ops (op.apply t)

/-- The operation stays inside the buffer and divides by nothing that is zero. -/
def SafeOp (t : HeartbeatTelemetry) (op : DetectorOp) : Prop := (op.run t).isSome

/-! The checked functions, where every access succeeds. -/

theorem foldlM_write {buf : List ℕ} {n : ℕ} (h : n ≤ buf.length) :
    (List.range n).foldlM (fun buf i => write buf i 0) buf =
      some (List.replicate n 0 ++ buf.drop n) := by
  induction n with
  | zero => simp
  | succ n ih =>
      have hlen : n < (List.replicate n 0 ++ buf.drop n).length := by
        rw [List.length_append, List.length_replicate, List.length_drop]
        omega
      rw [List.range_succ, List.foldlM_append, ih (by omega)]
      simp only [Option.bind_eq_bind, Option.bind_some, List.foldlM_cons, List.foldlM_nil]
      rw [write, if_pos hlen, List.set_append_right _ _ (by simp), List.length_replicate,
        Nat.sub_self, List.drop_eq_getElem_cons (by omega : n < buf.length), List.set_cons_zero,
        List.replicate_succ', List.append_assoc]
      rfl

theorem foldlM_sum {buf : List ℕ} {n : ℕ} (h : n ≤ buf.length) :
    (List.range n).foldlM (fun (sum i : ℕ) => buf[i]?.map fun x => (sum + x) % 2 ^ 64) 0 =
      some ((buf.take n).sum % 2 ^ 64) := by
  induction n with
  | zero => simp
  | succ n ih =>
      rw [List.range_succ, List.foldlM_append, ih (by omega)]
      simp only [Option.bind_eq_bind, Option.bind_some, List.foldlM_cons, List.foldlM_nil]
      rw [List.getElem?_eq_getElem (by omega : n < buf.length), Option.map_some, Nat.mod_add_mod,
        List.take_succ_eq_append_getElem (by omega : n < buf.length), List.sum_append, List.sum_singleton]
      rfl

/-- The buffer has the size it was made with, and the positions are inside it. -/
structure Sound (t : HeartbeatTelemetry) : Prop where
  length : t.intervalsUsec.length = t.windowSize
  numIntervals : t.numIntervals ≤ t.windowSize
  intervalIndex : t.windowSize ≠ 0 → t.intervalIndex < t.windowSize

theorem Sound.meanChecked (h : Sound t) : t.meanChecked = some t.computeMeanInterval := by
  have hle : t.numIntervals ≤ t.intervalsUsec.length := h.length ▸ h.numIntervals
  rw [HeartbeatTelemetry.meanChecked, computeMeanInterval]
  split
  · rfl
  · rename_i hnum
    rw [foldlM_sum hle]
    simp only [Option.bind_eq_bind, Option.bind_some]
    rw [quotient, if_neg (by exact_mod_cast hnum)]

theorem Sound.checkChecked (h : Sound t) (env : Env) :
    t.checkChecked env = some (t.checkLeaderFailure env) := by
  rw [HeartbeatTelemetry.checkChecked, h.meanChecked, checkLeaderFailure]
  simp only [Option.bind_eq_bind, Option.bind_some]
  split
  · rfl
  · rename_i hmean
    rw [quotient, if_neg (fun hzero => hmean hzero.le)]
    rfl

theorem Sound.resetChecked (h : Sound t) : t.resetChecked = some t.reset := by
  rw [HeartbeatTelemetry.resetChecked, foldlM_write h.length.ge, ← h.length, List.drop_length,
    List.append_nil, h.length]
  rfl

theorem Sound.recordChecked (h : Sound t) (now : ℕ) (hw : 1 ≤ t.windowSize) :
    t.recordChecked now = some (t.recordInterval now) := by
  have hlen : t.intervalIndex < t.intervalsUsec.length :=
    h.length ▸ h.intervalIndex (Nat.ne_of_gt hw)
  rw [HeartbeatTelemetry.recordChecked, recordInterval]
  split
  · rfl
  · simp only [write, remainder, if_pos hlen, if_neg (Nat.ne_of_gt hw), Option.bind_eq_bind,
      Option.bind_some]
    rfl

/-- The checked functions return what the unchecked ones do, unless they fail, which
they do just if a gap meets an empty window. -/
theorem Sound.run (h : Sound t) (op : DetectorOp) :
    (1 ≤ t.windowSize ∨ op.NoGap t) ∧ op.run t = some (op.apply t) ∨
      ¬(1 ≤ t.windowSize ∨ op.NoGap t) ∧ op.run t = none := by
  cases op with
  | record now =>
      rw [DetectorOp.run, DetectorOp.apply, DetectorOp.NoGap]
      by_cases hw : 1 ≤ t.windowSize
      · exact .inl ⟨.inl hw, h.recordChecked now hw⟩
      · by_cases hlast : t.lastHeartbeatUsec = 0
        · refine .inl ⟨.inr hlast, ?_⟩
          rw [HeartbeatTelemetry.recordChecked, recordInterval, if_pos hlast, if_pos hlast]
        · refine .inr ⟨fun hor => hor.elim hw hlast, ?_⟩
          have hlen : ¬t.intervalIndex < t.intervalsUsec.length := by
            rw [h.length]
            omega
          rw [HeartbeatTelemetry.recordChecked, if_neg hlast]
          simp only [write, if_neg hlen, Option.bind_eq_bind, Option.bind_none]
  | reset => exact .inl ⟨.inr trivial, h.resetChecked⟩
  | check env =>
      refine .inl ⟨.inr trivial, ?_⟩
      rw [DetectorOp.run, h.checkChecked]
      rfl

theorem Sound.safe_iff (h : Sound t) (op : DetectorOp) :
    SafeOp t op ↔ 1 ≤ t.windowSize ∨ op.NoGap t := by
  rcases h.run op with ⟨hfine, hrun⟩ | ⟨hbad, hrun⟩
  · rw [SafeOp, hrun]
    exact iff_of_true rfl hfine
  · rw [SafeOp, hrun]
    exact iff_of_false Bool.false_ne_true hbad

theorem Sound.reset (t : HeartbeatTelemetry) : Sound t.reset where
  length := List.length_replicate
  numIntervals := Nat.zero_le _
  intervalIndex := Nat.pos_of_ne_zero

theorem Sound.record (h : Sound t) (now : ℕ) : Sound (t.recordInterval now) := by
  rw [recordInterval]
  split
  · exact ⟨h.length, h.numIntervals, h.intervalIndex⟩
  · refine ⟨?_, ?_, fun hw => Nat.mod_lt _ (Nat.pos_of_ne_zero hw)⟩
    · dsimp only
      rw [List.length_set, h.length]
    · have := h.numIntervals
      dsimp only
      split <;> omega

theorem Sound.apply (h : Sound t) (op : DetectorOp) : Sound (op.apply t) := by
  cases op with
  | record now => exact h.record now
  | reset => exact .reset t
  | check env => exact h

theorem windowSize_apply (t : HeartbeatTelemetry) (op : DetectorOp) :
    (op.apply t).windowSize = t.windowSize := by
  cases op with
  | record now =>
      rw [DetectorOp.apply, recordInterval]
      split <;> rfl
  | reset => rfl
  | check env => rfl

theorem Sound.safe_run (h : Sound t) (ops : List DetectorOp) :
    EveryOp SafeOp ops t ↔ 1 ≤ t.windowSize ∨ EveryOp (fun t op => op.NoGap t) ops t := by
  induction ops generalizing t with
  | nil => exact iff_of_true trivial (.inr trivial)
  | cons op ops ih =>
      rw [EveryOp, EveryOp, h.safe_iff, ih (h.apply op), windowSize_apply]
      tauto

/-! ### No buffer -/

/-- `calloc` failed, and no gap has been recorded. -/
structure Bare (t : HeartbeatTelemetry) : Prop where
  buffer : t.intervalsUsec = []
  windowSize : 1 ≤ t.windowSize
  numIntervals : t.numIntervals = 0

/-- Only what keeps away from the buffer does not fail. -/
theorem Bare.run (h : Bare t) (op : DetectorOp) :
    (op.NoGap t ∧ op ≠ .reset) ∧ op.run t = some (op.apply t) ∨
      ¬(op.NoGap t ∧ op ≠ .reset) ∧ op.run t = none := by
  cases op with
  | record now =>
      rw [DetectorOp.run, DetectorOp.apply, DetectorOp.NoGap, recordChecked, recordInterval]
      by_cases hlast : t.lastHeartbeatUsec = 0
      · rw [if_pos hlast, if_pos hlast]
        exact .inl ⟨⟨hlast, by simp⟩, rfl⟩
      · rw [if_neg hlast, h.buffer]
        exact .inr ⟨fun hcond => hlast hcond.1, rfl⟩
  | reset =>
      obtain ⟨w, hw⟩ := Nat.exists_eq_add_of_le' h.windowSize
      rw [DetectorOp.run, resetChecked, h.buffer, hw, List.range_succ_eq_map]
      exact .inr ⟨fun hcond => hcond.2 rfl, rfl⟩
  | check env =>
      rw [DetectorOp.run, checkChecked, meanChecked, if_pos h.numIntervals]
      exact .inl ⟨⟨trivial, by simp⟩, rfl⟩

theorem Bare.safe_iff (h : Bare t) (op : DetectorOp) : SafeOp t op ↔ op.NoGap t ∧ op ≠ .reset := by
  rcases h.run op with ⟨hfine, hrun⟩ | ⟨hbad, hrun⟩
  · rw [SafeOp, hrun]
    exact iff_of_true rfl hfine
  · rw [SafeOp, hrun]
    exact iff_of_false Bool.false_ne_true hbad

theorem Bare.apply (h : Bare t) {op : DetectorOp} (hgap : op.NoGap t) (hreset : op ≠ .reset) :
    Bare (op.apply t) := by
  cases op with
  | record now =>
      rw [DetectorOp.NoGap] at hgap
      rw [DetectorOp.apply, recordInterval, if_pos hgap]
      exact ⟨h.buffer, h.windowSize, h.numIntervals⟩
  | reset => exact absurd rfl hreset
  | check env => exact h

theorem Bare.safe_run (h : Bare t) (ops : List DetectorOp) :
    EveryOp SafeOp ops t ↔ EveryOp (fun t op => op.NoGap t) ops t ∧ .reset ∉ ops := by
  induction ops generalizing t with
  | nil => exact iff_of_true trivial ⟨trivial, List.not_mem_nil⟩
  | cons op ops ih =>
      rw [EveryOp, EveryOp, h.safe_iff, List.mem_cons, not_or]
      constructor
      · rintro ⟨⟨hgap, hreset⟩, hlater⟩
        obtain ⟨hgaps, hresets⟩ := (ih (h.apply hgap hreset)).mp hlater
        exact ⟨⟨hgap, hgaps⟩, Ne.symm hreset, hresets⟩
      · rintro ⟨⟨hgap, hgaps⟩, hreset, hresets⟩
        exact ⟨⟨hgap, Ne.symm hreset⟩, (ih (h.apply hgap (Ne.symm hreset))).mpr ⟨hgaps, hresets⟩⟩

/-- The detector is safe with a buffer of at least one element. Without one it is safe
just as long as no gap is recorded and, if `calloc` failed, nothing is reset. -/
theorem detector_safe (granted : Bool) (threshold : ℚ) (w rampSize : ℕ) (ops : List DetectorOp) :
    EveryOp SafeOp ops (initGranted granted threshold w rampSize) ↔
      granted = true ∧ 1 ≤ w ∨
      EveryOp (fun t op => op.NoGap t) ops (initGranted granted threshold w rampSize) ∧
        (granted = true ∨ w = 0 ∨ .reset ∉ ops) := by
  by_cases hsound : granted = true ∨ w = 0
  · have h : Sound (initGranted granted threshold w rampSize) := by
      refine ⟨?_, Nat.zero_le _, Nat.pos_of_ne_zero⟩
      rcases hsound with rfl | rfl
      · exact List.length_replicate
      · cases granted <;> rfl
    have hw : (initGranted granted threshold w rampSize).windowSize = w := rfl
    rw [h.safe_run, hw]
    have hpos : 1 ≤ w → granted = true := fun hw => hsound.resolve_right (Nat.ne_of_gt hw)
    tauto
  · obtain ⟨hgranted, hw⟩ := not_or.mp hsound
    have h : Bare (initGranted granted threshold w rampSize) := by
      refine ⟨?_, Nat.pos_of_ne_zero hw, rfl⟩
      rw [Bool.eq_false_iff.mpr hgranted]
      rfl
    rw [h.safe_run]
    tauto

/-- Two heartbeats, with a window of no gaps at all, and with one for which there is
no memory. -/
theorem detector_unsafe :
    ¬EveryOp SafeOp [.record 5, .record 9] (initGranted true 1 0 0) ∧
      ¬EveryOp SafeOp [.record 5, .record 9] (initGranted false 1 4294967295 0) := by
  refine ⟨?_, ?_⟩
  · rintro ⟨-, hsafe, -⟩
    cases hsafe
  · rintro ⟨-, hsafe, -⟩
    cases hsafe

end GeoRaft.HeartbeatTelemetry
