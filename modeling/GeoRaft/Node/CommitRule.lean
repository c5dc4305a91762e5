import Mathlib.Order.Bounds.Basic
import GeoRaft.Node.Handlers
import GeoRaft.Node.InRange

/-!
How far a leader commits after a success.

The loop of the handler counts upwards and keeps the last index that passes its
test, so what it ends with is the greatest of them: entries of older terms on the
way are passed over, and covered by a later one of the leader's own term.
-/

namespace GeoRaft.Node

open Word

section

variable {σ : Type} [Storage σ] {n : Node σ}

/-- What the turns of the loop read of a node. -/
structure SameLedger (n n' : Node σ) : Prop where
  config : n'.config = n.config
  store : n'.store = n.store
  matchIndex : n'.matchIndex = n.matchIndex
  lastApplied : n'.lastApplied = n.lastApplied

theorem SameLedger.raftGetLogTerm {n' : Node σ} (h : SameLedger n n') (k : ℤ) :
    n'.raftGetLogTerm k = n.raftGetLogTerm k := by
  rw [Node.raftGetLogTerm, Node.raftGetLogTerm, logLength, logLength, logRead, logRead, h.store]

omit [Storage σ] in
theorem SameLedger.replicaCount {n' : Node σ} (h : SameLedger n n') (k : ℤ) :
    n'.replicaCount k = n.replicaCount k := by
  rw [Node.replicaCount, Node.replicaCount, h.config, h.matchIndex]

/-- What an index must meet to be committed in the loop. -/
def Passes (n : Node σ) (curTerm : ℕ) (k : ℤ) : Prop :=
  n.raftGetLogTerm k = curTerm ∧ n.config.numNodes / 2 < n.replicaCount k

theorem tryCommit_ledger (n : Node σ) (curTerm : ℕ) (k : ℤ) :
    SameLedger n (n.tryCommit curTerm k) := by
  unfold tryCommit
  split
  · exact ⟨rfl, rfl, rfl, rfl⟩
  · split <;> exact ⟨rfl, rfl, rfl, rfl⟩

theorem tryCommit_of_passes {curTerm : ℕ} {k : ℤ} (h : n.Passes curTerm k) :
    (n.tryCommit curTerm k).commitIndex = k := by
  rw [tryCommit, if_neg (not_not.mpr h.1), if_pos h.2]

theorem tryCommit_of_not_passes {curTerm : ℕ} {k : ℤ} (h : ¬n.Passes curTerm k) :
    n.tryCommit curTerm k = n := by
  rw [tryCommit]
  by_cases hterm : n.raftGetLogTerm k = curTerm
  · rw [if_neg (not_not.mpr hterm), if_neg fun hgt => h ⟨hterm, hgt⟩]
  · rw [if_pos hterm]

/-- The loop keeps the greatest index that passes. -/
theorem commitLoop_isGreatest (n : Node σ) (curTerm : ℕ) (logLen : ℤ) :
    SameLedger n (n.commitLoop curTerm logLen) ∧
      IsGreatest {k | k = n.commitIndex ∨ n.commitIndex < k ∧ k < logLen ∧ n.Passes curTerm k}
        (n.commitLoop curTerm logLen).commitIndex := by
  unfold commitLoop
  dsimp only
  have hloop := foldl_range_induct
    (f := fun m (k : ℕ) => m.tryCommit curTerm (n.commitIndex + 1 + k))
    (motive := fun (k : ℕ) m => SameLedger n m ∧
      IsGreatest {j | j = n.commitIndex ∨
        n.commitIndex < j ∧ j < n.commitIndex + 1 + k ∧ n.Passes curTerm j} m.commitIndex)
    (b := n) (logLen - (n.commitIndex + 1)).toNat ?_ ?_
  · refine ⟨hloop.1, hloop.2.1.imp_right fun ⟨hlo, hhi, hp⟩ => ⟨hlo, by omega, hp⟩, ?_⟩
    rintro j (rfl | ⟨hlo, hhi, hp⟩)
    · exact hloop.2.2 (.inl rfl)
    · exact hloop.2.2 (.inr ⟨hlo, by omega, hp⟩)
  · refine ⟨⟨rfl, rfl, rfl, rfl⟩, .inl rfl, ?_⟩
    rintro j (rfl | ⟨hlo, hhi, -⟩)
    · exact le_rfl
    · omega
  · rintro k m - ⟨hm, hmem, hub⟩
    have hpasses : m.Passes curTerm (n.commitIndex + 1 + k) ↔
        n.Passes curTerm (n.commitIndex + 1 + k) := by
      rw [Passes, Passes, hm.raftGetLogTerm, hm.replicaCount, hm.config]
    have hled := tryCommit_ledger m curTerm (n.commitIndex + 1 + k)
    refine ⟨⟨hled.config.trans hm.config, hled.store.trans hm.store,
      hled.matchIndex.trans hm.matchIndex, hled.lastApplied.trans hm.lastApplied⟩, ?_⟩
    by_cases hp : n.Passes curTerm (n.commitIndex + 1 + k)
    · -- the new index is above all before it
      rw [tryCommit_of_passes (hpasses.mpr hp)]
      refine ⟨.inr ⟨by omega, by omega, hp⟩, ?_⟩
      rintro j (rfl | ⟨-, hhi, -⟩)
      · omega
      · omega
    · rw [tryCommit_of_not_passes (mt hpasses.mp hp)]
      refine ⟨hmem.imp_right fun ⟨hlo, hhi, hj⟩ => ⟨hlo, by omega, hj⟩, ?_⟩
      rintro j (rfl | ⟨hlo, hhi, hj⟩)
      · exact hub (.inl rfl)
      · refine hub (.inr ⟨hlo, ?_, hj⟩)
        -- the last index is the one that has just failed
        by_contra hge
        have hlast : j = n.commitIndex + 1 + k := by omega
        exact hp (hlast ▸ hj)

end

variable {n : Node Disk}

/-- The nodes other than the leader that hold entry `k`, by what the leader knows
once the response is in. -/
def holders (n : Node Disk) (srcId : ℕ) (resp : AppendEntriesRes) (k : ℤ) : Finset ℕ :=
  (Finset.range n.config.numNodes).filter fun i => i ≠ n.config.id ∧
    k ≤ if i = srcId then i32 resp.newMatchIndex else n.matchIndex.getD i (-1)

/-- An entry of the leader's term, above its commit index, that a majority holds. -/
structure Committable (n : Node Disk) (srcId : ℕ) (resp : AppendEntriesRes) (k : ℤ) : Prop where
  above : n.commitIndex < k
  below : k < n.logLength
  ownTerm : ∃ (i : ℕ) (entry : LogEntry), k = i ∧ n.store.log[i]? = some entry ∧
    entry.term = u32 (n.get .currentTerm)
  majority : n.config.numNodes / 2 < 1 + (n.holders srcId resp k).card

/-- An index in the range of `length` is one of the log. -/
theorem raftGetLogTerm_of_lt {i : ℕ} (h : (i : ℤ) < n.logLength) :
    ∃ entry, n.store.log[i]? = some entry ∧ n.raftGetLogTerm i = entry.term := by
  have hlt : i < n.store.log.length := by
    have hle := i32_le n.store.log.length
    rw [logLength, Disk.storage_length] at h
    omega
  have hint : (i : ℤ) < 2 ^ 31 := by
    have hbound := i32_lt n.store.log.length
    rw [logLength, Disk.storage_length] at h
    omega
  refine ⟨n.store.log[i], List.getElem?_eq_getElem hlt, ?_⟩
  rw [raftGetLogTerm, if_neg (by omega), if_neg (by omega), logRead_eq (by omega),
    List.getElem?_eq_getElem hlt]

/-- The test of the loop, as long as the index is not below that of an empty log. -/
theorem raftGetLogTerm_eq_iff {k : ℤ} {t : ℕ} (h : k < n.logLength) (hpos : -1 ≤ k - 1 ∨ t ≠ 0) :
    n.raftGetLogTerm k = t ↔
      ∃ (i : ℕ) (entry : LogEntry), k = i ∧ n.store.log[i]? = some entry ∧ entry.term = t := by
  rcases lt_or_ge k 0 with hneg | hnonneg
  · rw [raftGetLogTerm, if_pos hneg]
    constructor
    · intro ht
      omega
    · rintro ⟨i, -, rfl, -⟩
      omega
  · obtain ⟨i, rfl⟩ := Int.eq_ofNat_of_zero_le hnonneg
    obtain ⟨entry, hx, hterm⟩ := raftGetLogTerm_of_lt h
    rw [hterm]
    constructor
    · exact fun ht => ⟨i, entry, rfl, hx, ht⟩
    · rintro ⟨j, entry', hj, hx', ht⟩
      obtain rfl : i = j := by omega
      rw [hx] at hx'
      rw [Option.some.inj hx', ht]

theorem getD_matchIndex (h : n.matchIndex.length = n.config.numNodes) {i : ℕ}
    (hi : i < n.config.numNodes) (srcId : ℕ) (resp : AppendEntriesRes) :
    (n.credit srcId resp).matchIndex.getD i (-1) =
      if i = srcId then i32 resp.newMatchIndex else n.matchIndex.getD i (-1) := by
  rw [credit_matchIndex, List.getD_eq_getElem?_getD, List.getD_eq_getElem?_getD, List.getElem?_set]
  by_cases his : srcId = i
  · rw [if_pos his, if_pos his.symm, if_pos (by omega)]
    rw [Option.getD_some]
  · rw [if_neg his, if_neg (Ne.symm his)]

/-- The count of the loop, after the response is written down. -/
theorem replicaCount_credit (h : n.matchIndex.length = n.config.numNodes) (srcId : ℕ)
    (resp : AppendEntriesRes) (k : ℤ) :
    (n.credit srcId resp).replicaCount k = 1 + (n.holders srcId resp k).card := by
  rw [replicaCount, foldl_count, List.countP_eq_length_filter, holders]
  congr 1
  rw [← List.toFinset_card_of_nodup ((List.nodup_range).filter _)]
  congr 1
  ext i
  simp only [List.mem_toFinset, List.mem_filter, List.mem_range, Finset.mem_filter, Finset.mem_range,
    decide_eq_true_eq]
  have hcfg : (n.credit srcId resp).config = n.config := rfl
  rw [hcfg]
  constructor
  · rintro ⟨hi, hne, hge⟩
    rw [getD_matchIndex h hi] at hge
    exact ⟨hi, hne, hge⟩
  · rintro ⟨hi, hne, hge⟩
    rw [← getD_matchIndex h hi] at hge
    exact ⟨hi, hne, hge⟩

theorem passes_credit_iff (hm : n.matchIndex.length = n.config.numNodes) (srcId : ℕ)
    (resp : AppendEntriesRes) {k : ℤ} (habove : n.commitIndex < k) (hbelow : k < n.logLength)
    (hidx : -1 ≤ n.commitIndex ∨ u32 (n.get .currentTerm) ≠ 0) :
    (n.credit srcId resp).Passes (u32 (n.get .currentTerm)) k ↔ n.Committable srcId resp k := by
  have hterm : (n.credit srcId resp).raftGetLogTerm k = n.raftGetLogTerm k := rfl
  have hcfg : (n.credit srcId resp).config = n.config := rfl
  rw [Passes, hterm, hcfg, replicaCount_credit hm,
    raftGetLogTerm_eq_iff hbelow (hidx.imp_left fun h => by omega)]
  exact ⟨fun h => ⟨habove, hbelow, h.1, h.2⟩, fun h => ⟨h.ownTerm, h.majority⟩⟩

/-- A success of the leader's term takes the commit index to the greatest index that
may be committed, and everything up to it is applied. -/
theorem commit_rule (env : Env) {n : Node Disk} {srcId : ℕ} {resp : AppendEntriesRes}
    (hr : n.role = .leader) (hterm : resp.term = u32 (n.get .currentTerm)) (hs : resp.success ≠ 0)
    (hm : n.matchIndex.length = n.config.numNodes)
    (hidx : -1 ≤ n.commitIndex ∨ u32 (n.get .currentTerm) ≠ 0) :
    IsGreatest {k | k = n.commitIndex ∨ n.Committable srcId resp k}
        (n.handleAppendEntriesResponse env srcId resp).commitIndex ∧
      (n.handleAppendEntriesResponse env srcId resp).lastApplied =
        max n.lastApplied (n.handleAppendEntriesResponse env srcId resp).commitIndex := by
  have heq : n.handleAppendEntriesResponse env srcId resp =
      ((n.credit srcId resp).commitLoop (u32 (n.get .currentTerm)) n.logLength).applyToStateMachine := by
    rw [handleAppendEntriesResponse, if_neg (by omega), if_neg (by simp [hr, hterm]), if_pos hs, credit]
  obtain ⟨hled, hmem, hub⟩ :=
    commitLoop_isGreatest (n.credit srcId resp) (u32 (n.get .currentTerm)) n.logLength
  rw [heq]
  generalize (n.credit srcId resp).commitLoop (u32 (n.get .currentTerm)) n.logLength = m
    at hled hmem hub ⊢
  have hcommit : (n.credit srcId resp).commitIndex = n.commitIndex := rfl
  have happlied : (n.credit srcId resp).lastApplied = n.lastApplied := rfl
  rw [hcommit] at hmem hub
  rw [applyToStateMachine_commitIndex, applyToStateMachine_lastApplied, hled.lastApplied, happlied]
  refine ⟨⟨?_, ?_⟩, rfl⟩
  · exact hmem.imp_right fun h => (passes_credit_iff hm srcId resp h.1 h.2.1 hidx).mp h.2.2
  · rintro k (rfl | hk)
    · exact hub (.inl rfl)
    · exact hub (.inr ⟨hk.above, hk.below,
        (passes_credit_iff hm srcId resp hk.above hk.below hidx).mpr hk⟩)

/-- A leader of three nodes in term 2, with an entry of term 1 and one of its own. -/
def leaderOfTermTwo : Node Disk :=
  { raftCreate (.plain 3 0) ⟨2, 0, [⟨1, 9, 0, 5⟩, ⟨2, 9, 1, 6⟩]⟩ with
    role := .leader
    matchIndex := [-1, -1, -1] }

/-- One follower that holds both entries is enough to commit the second. -/
theorem commit_rule_of_three :
    IsGreatest {k | k = -1 ∨ leaderOfTermTwo.Committable 1 ⟨2, 1, 1⟩ k}
        (leaderOfTermTwo.handleAppendEntriesResponse ⟨0, 0⟩ 1 ⟨2, 1, 1⟩).commitIndex ∧
      (leaderOfTermTwo.handleAppendEntriesResponse ⟨0, 0⟩ 1 ⟨2, 1, 1⟩).commitIndex = 1 := by
  obtain ⟨hgreatest, -⟩ := @commit_rule ⟨0, 0⟩ leaderOfTermTwo 1 ⟨2, 1, 1⟩ rfl
    (by decide +kernel) (by decide) rfl (.inl (by decide))
  exact ⟨hgreatest, by decide +kernel⟩

end GeoRaft.Node
