import GeoRaft.Node.Handlers
import GeoRaft.Node.InRange

/-!
What an accepted `AppendEntries` request makes of the log of a follower.

The log is compared with the entries of the request, one after the other. As long
as the terms agree nothing happens; from the first entry that is missing or of
another term on, the log is what the request says.
-/

namespace GeoRaft

open Word

/-- At its `i`-th entry the request has a term that the log does not have there. -/
def Differs (log : List LogEntry) (k : ℕ) (entries : List LogEntry) (i : ℕ) : Prop :=
  i < entries.length ∧ log[k + i]?.map LogEntry.term ≠ entries[i]?.map LogEntry.term

/-- The log with the entries of a request from position `k` on merged into it. -/
def mergeLog (log : List LogEntry) : ℕ → List LogEntry → List LogEntry
  | _, [] => log
  | k, entry :: entries =>
    if log[k]?.map LogEntry.term = some entry.term then mergeLog log (k + 1) entries
    else log.take k ++ entry :: entries

theorem differs_cons_zero {log : List LogEntry} {k : ℕ} {entry : LogEntry}
    {entries : List LogEntry} :
    Differs log k (entry :: entries) 0 ↔ log[k]?.map LogEntry.term ≠ some entry.term := by
  simp [Differs]

theorem differs_cons_succ {log : List LogEntry} {k i : ℕ} {entry : LogEntry}
    {entries : List LogEntry} :
    Differs log k (entry :: entries) (i + 1) ↔ Differs log (k + 1) entries i := by
  have hpos : k + (i + 1) = k + 1 + i := by omega
  simp [Differs, hpos]

theorem mergeLog_of_agree {log : List LogEntry} {k : ℕ} {entries : List LogEntry}
    (h : ∀ i, ¬Differs log k entries i) : mergeLog log k entries = log := by
  induction entries generalizing k with
  | nil => rfl
  | cons entry entries ih =>
      have hhead := not_not.mp (mt differs_cons_zero.mpr (h 0))
      rw [mergeLog, if_pos hhead]
      exact ih fun i => mt differs_cons_succ.mpr (h (i + 1))

theorem mergeLog_of_differs {log : List LogEntry} {k i : ℕ} {entries : List LogEntry}
    (h : Differs log k entries i) (hfirst : ∀ j < i, ¬Differs log k entries j) :
    mergeLog log k entries = log.take (k + i) ++ entries.drop i := by
  induction entries generalizing k i with
  | nil => exact absurd h.1 (Nat.not_lt_zero i)
  | cons entry entries ih =>
      cases i with
      | zero =>
          rw [mergeLog, if_neg (differs_cons_zero.mp h)]
          rfl
      | succ i =>
          have hhead := not_not.mp (mt differs_cons_zero.mpr (hfirst 0 (Nat.succ_pos i)))
          rw [mergeLog, if_pos hhead, List.drop_succ_cons]
          rw [ih (differs_cons_succ.mp h) fun j hj =>
            mt differs_cons_succ.mpr (hfirst (j + 1) (by omega))]
          rw [show k + 1 + i = k + (i + 1) by omega]

theorem mergeLog_end (log entries : List LogEntry) :
    mergeLog log log.length entries = log ++ entries := by
  cases entries with
  | nil => rw [mergeLog, List.append_nil]
  | cons entry entries =>
      rw [mergeLog, if_neg (by simp), List.take_length]

namespace Node

variable {n : Node Disk}

/-- The loop of the handler merges. -/
theorem storeEntries_store {k j : ℕ} {entries : List LogEntry} (h : n.store.log.length < 2 ^ 31)
    (ha : k + j ≤ n.store.log.length) (hfit : k + j + entries.length < 2 ^ 31) :
    (storeEntries k j n.store.log.length entries n).store =
      { n.store with log := mergeLog n.store.log (k + j) entries } := by
  induction entries generalizing n j with
  | nil => rfl
  | cons entry entries ih =>
      rw [List.length_cons] at hfit
      -- a node that has just written the entry to the end of its log
      have hrest : ∀ {m : Node Disk} {log : List LogEntry}, log.length = k + j →
          m.store = { n.store with log := log ++ [entry] } →
          (storeEntries k (j + 1) (k + (j + 1) : ℕ) entries m).store =
            { n.store with log := log ++ entry :: entries } := by
        intro m log hlog hm
        have hlen : m.store.log.length = k + (j + 1) := by
          rw [hm, List.length_append, hlog]
          rfl
        have hmerge : mergeLog m.store.log (k + (j + 1)) entries = m.store.log ++ entries := by
          rw [← hlen, mergeLog_end]
        have hturns := ih (n := m) (j := j + 1) (by omega) hlen.ge (by omega)
        rw [hmerge, hlen] at hturns
        rw [hturns, hm, List.append_assoc, List.singleton_append]
      rw [storeEntries_cons h ha, mergeLog]
      split
      · rename_i hin
        have hx : n.store.log[k + j]? = some n.store.log[k + j] := List.getElem?_eq_getElem hin
        have hterm : n.store.log[k + j]?.map LogEntry.term = some entry.term ↔
            n.store.log[k + j].term = entry.term := by rw [hx, Option.map_some, Option.some_inj]
        rw [raftGetLogTerm_eq h hx]
        split
        · rename_i hne
          rw [if_neg (mt hterm.mp hne)]
          have hcut := logRemoveLastN_store h hin
          generalize n.logRemoveLastN ((n.store.log.length : ℤ) - (k + j : ℕ)) = m at hcut ⊢
          have hlen : m.store.log.length = k + j := by
            rw [hcut, List.length_take, min_eq_left ha]
          refine hrest (by rw [List.length_take, min_eq_left ha]) ?_
          have hw := logWrite_end (n := m) (by omega) entry none
          rw [hlen, hcut] at hw
          exact hw
        · rename_i heq
          rw [if_pos (hterm.mpr (not_not.mp heq))]
          exact ih (n := n) (j := j + 1) h (by omega) (by omega)
      · rename_i hout
        have hend : n.store.log.length = k + j := by omega
        have hnone : n.store.log[k + j]? = none := List.getElem?_eq_none (by omega)
        rw [if_neg (by simp [hnone]), List.take_of_length_le hend.le]
        exact hrest hend (logWrite_end h entry none)

/-- The entry before the new ones is in the log, with the term that the request
gives it. Index -1 counts as present with term 0. -/
def PrevPresent (log : List LogEntry) (req : AppendEntriesReq) : Prop :=
  req.prevLogIdx = 2 ^ 32 - 1 ∧ req.prevLogTerm = 0 ∨
    ∃ entry, log[req.prevLogIdx]? = some entry ∧ entry.term = req.prevLogTerm

/-- Where the entries of a request go: one behind `prev_log_idx`. -/
theorem position_eq {req : AppendEntriesReq}
    (h : req.prevLogIdx = 2 ^ 32 - 1 ∨ req.prevLogIdx < 2 ^ 31) :
    ∃ k ≤ 2 ^ 31, u32 (req.prevLogIdx + 1) = k ∧ req.prevLogIdx = u32 ((k : ℤ) - 1) := by
  rcases h with h | h
  · refine ⟨0, by omega, ?_, ?_⟩
    · rw [h]
      unfold u32
      omega
    · rw [h]
      unfold u32
      omega
  · refine ⟨req.prevLogIdx + 1, by omega, ?_, ?_⟩
    · exact_mod_cast u32_of_nat (n := req.prevLogIdx + 1) (by omega)
    · rw [Nat.cast_succ, add_sub_cancel_right, u32_of_nat (by omega)]

theorem prevMatches_iff_present {req : AppendEntriesReq} (h : n.store.log.length < 2 ^ 31)
    (hprev : req.prevLogIdx = 2 ^ 32 - 1 ∨ req.prevLogIdx < 2 ^ 31) :
    n.prevMatches n.logLength req ↔ PrevPresent n.store.log req := by
  rcases hprev with hwrap | hlt
  · have hreq : req.prevLogIdx = u32 (((0 : ℕ) : ℤ) - 1) := by
      rw [hwrap]
      unfold u32
      omega
    have hnone : n.store.log[req.prevLogIdx]? = none := List.getElem?_eq_none (by omega)
    rw [prevMatches_iff h (by omega) hreq, PrevPresent, hnone, termBefore_zero]
    simp [hwrap, eq_comm]
  · have hreq : req.prevLogIdx = u32 (((req.prevLogIdx + 1 : ℕ) : ℤ) - 1) := by
      rw [Nat.cast_succ, add_sub_cancel_right, u32_of_nat (by omega)]
    rw [prevMatches_iff h (by omega) hreq, PrevPresent]
    constructor
    · rintro ⟨hle, hterm⟩
      have hx := List.getElem?_eq_getElem (l := n.store.log) (i := req.prevLogIdx) (by omega)
      exact .inr ⟨_, hx, by rw [← hterm, termBefore_succ hx]⟩
    · rintro (⟨hwrap, -⟩ | ⟨entry, hx, hterm⟩)
      · omega
      · exact ⟨(List.getElem?_eq_some_iff.mp hx).1, by rw [termBefore_succ hx, hterm]⟩

/-- The last thing the handler does is to send this response to the leader. -/
def AnswersWith (env : Env) (n : Node Disk) (req : AppendEntriesReq) (newMatch success : ℕ) : Prop :=
  ∃ pre, (n.handleAppendEntriesRequest env req).script = pre ++
    [.send ⟨req.leaderId, n.config.id,
      .appendEntriesRes ⟨u32 (n.get .currentTerm), newMatch, success⟩⟩]

/-- The commit index of a follower behind a request that it has accepted. -/
def commitAfter (n : Node Disk) (req : AppendEntriesReq) : ℤ :=
  if req.leaderCommit > n.commitIndex then (n.committing req).commitIndex else n.commitIndex

theorem commitAfter_congr {n' : Node Disk} (req : AppendEntriesReq)
    (h : n'.commitIndex = n.commitIndex) : n'.commitAfter req = n.commitAfter req := by
  simp only [commitAfter, committing, h]

theorem advanceCommit_commitIndex (n : Node Disk) (req : AppendEntriesReq) :
    (n.advanceCommit req).commitIndex = n.commitAfter req := by
  rw [advanceCommit_eq, commitAfter]
  split
  · rw [applyToStateMachine_commitIndex]
  · rfl

/-- What a request that is not stale does: refuse, or merge and acknowledge. -/
theorem acceptAppendEntries_merges (env : Env) (n : Node Disk) (curTerm : ℕ)
    {req : AppendEntriesReq} (h : n.store.log.length < 2 ^ 31)
    (hprev : req.prevLogIdx = 2 ^ 32 - 1 ∨ req.prevLogIdx < 2 ^ 31) :
    (¬PrevPresent n.store.log req → ∃ m : Node Disk, m.store.log = n.store.log ∧
      m.config = n.config ∧ m.commitIndex = n.commitIndex ∧
      n.acceptAppendEntries env curTerm req =
        m.sendAppendEntriesResponse req.leaderId curTerm 0 0) ∧
    (PrevPresent n.store.log req → u32 (req.prevLogIdx + 1) + req.nEntries < 2 ^ 31 →
      ∃ m : Node Disk,
        m.store.log = mergeLog n.store.log (u32 (req.prevLogIdx + 1)) req.entries ∧
        m.config = n.config ∧ m.commitIndex = n.commitAfter req ∧
        n.acceptAppendEntries env curTerm req =
          m.sendAppendEntriesResponse req.leaderId curTerm (u32 (req.prevLogIdx + req.nEntries)) 1) := by
  unfold acceptAppendEntries
  dsimp only
  generalize hm : setFaultDetectTimer env _ = m
  obtain ⟨hs, hc, hci⟩ :
      m.store = n.store ∧ m.config = n.config ∧ m.commitIndex = n.commitIndex := by
    subst hm
    split <;> exact ⟨rfl, rfl, rfl⟩
  have h : m.store.log.length < 2 ^ 31 := by rwa [hs]
  rw [← hs, ← hc, ← hci, if_neg (by rw [logLength_eq h]; omega), ← prevMatches_iff_present h hprev]
  constructor
  · intro hno
    rw [if_pos hno]
    exact ⟨m, rfl, rfl, rfl, rfl⟩
  · intro hyes hfit
    rw [if_neg (not_not.mpr hyes)]
    obtain ⟨k, -, hk, hreq⟩ := position_eq hprev
    rw [hk] at hfit ⊢
    have hle : k ≤ m.store.log.length := ((prevMatches_iff h (by omega) hreq).mp hyes).1
    have hst := @storeEntries_store m k 0 req.entries h hle hfit
    rw [← logLength_eq h] at hst
    have hcfg : (storeEntries k 0 m.logLength req.entries m).config = m.config :=
      (storeEntries_keeps k 0 m.logLength req.entries m).config
    have hcommit : (storeEntries k 0 m.logLength req.entries m).commitIndex = m.commitIndex :=
      (storeEntries_still k 0 m.logLength req.entries m).commit
    generalize storeEntries k 0 m.logLength req.entries m = m' at hst hcfg hcommit ⊢
    refine ⟨m'.advanceCommit req, ?_, ?_, ?_, rfl⟩
    · rw [advanceCommit_store, hst]
      rfl
    · exact (advanceCommit_keeps m' req).config.trans hcfg
    · rw [advanceCommit_commitIndex, commitAfter_congr req (hcommit.trans hci)]

theorem handleAppendEntriesRequest_accepts (env : Env) (n : Node Disk) {req : AppendEntriesReq}
    (hread : 0 ≤ n.get .currentTerm) (hterm : u32 (n.get .currentTerm) ≤ req.term) :
    ∃ m : Node Disk, m.store.log = n.store.log ∧ m.config = n.config ∧
      m.commitIndex = n.commitIndex ∧ n.handleAppendEntriesRequest env req =
        m.acceptAppendEntries env (u32 (n.get .currentTerm)) req := by
  rw [handleAppendEntriesRequest, if_neg (not_lt.mpr hread), if_neg (not_lt.mpr hterm)]
  split
  · exact ⟨n.becomeFollower env req.term req.leaderId, rfl, rfl, rfl, rfl⟩
  · exact ⟨{ n with leaderId := req.leaderId }, rfl, rfl, rfl, rfl⟩

/-- The merge law: what any request that is not stale makes of the log `F` of a
node, and how it is answered. -/
theorem merge_law (env : Env) (n : Node Disk) (req : AppendEntriesReq)
    (hread : 0 ≤ n.get .currentTerm) (hterm : u32 (n.get .currentTerm) ≤ req.term)
    (hprev : req.prevLogIdx = 2 ^ 32 - 1 ∨ req.prevLogIdx < 2 ^ 31)
    (hlen : n.store.log.length < 2 ^ 31) :
    (¬PrevPresent n.store.log req →
      (n.handleAppendEntriesRequest env req).store.log = n.store.log ∧
      n.AnswersWith env req 0 0) ∧
    (PrevPresent n.store.log req → u32 (req.prevLogIdx + 1) + req.nEntries < 2 ^ 31 →
      n.AnswersWith env req (u32 (req.prevLogIdx + req.nEntries)) 1 ∧
      (∀ i, Differs n.store.log (u32 (req.prevLogIdx + 1)) req.entries i →
        (∀ j < i, ¬Differs n.store.log (u32 (req.prevLogIdx + 1)) req.entries j) →
        (n.handleAppendEntriesRequest env req).store.log =
          n.store.log.take (u32 (req.prevLogIdx + 1) + i) ++ req.entries.drop i) ∧
      ((∀ i, ¬Differs n.store.log (u32 (req.prevLogIdx + 1)) req.entries i) →
        (n.handleAppendEntriesRequest env req).store.log = n.store.log)) := by
  obtain ⟨m, hlog, hcfg, -, heq⟩ := handleAppendEntriesRequest_accepts env n hread hterm
  have hm := acceptAppendEntries_merges env m (u32 (n.get .currentTerm)) (by rwa [hlog]) hprev
  rw [hlog, hcfg, ← heq] at hm
  constructor
  · intro hno
    obtain ⟨m', hlog', hcfg', -, heq'⟩ := hm.1 hno
    refine ⟨by rw [heq', ← hlog']; rfl, m'.script, ?_⟩
    rw [heq', ← hcfg']
    rfl
  · intro hyes hfit
    obtain ⟨m', hlog', hcfg', -, heq'⟩ := hm.2 hyes hfit
    have hresult : (n.handleAppendEntriesRequest env req).store.log =
        mergeLog n.store.log (u32 (req.prevLogIdx + 1)) req.entries := by
      rw [heq', ← hlog']
      rfl
    rw [hresult]
    refine ⟨⟨m'.script, ?_⟩, fun i hi hfirst => mergeLog_of_differs hi hfirst, mergeLog_of_agree⟩
    rw [heq', ← hcfg']
    rfl

/-- A follower with the entries of terms 1, 1 and 2 gets one entry of term 3 for
the second place. -/
theorem merge_law_conflict :
    let n : Node Disk := raftCreate (.plain 3 1) ⟨2, pfNoVote, [⟨1, 9, 0, 5⟩, ⟨1, 9, 1, 6⟩, ⟨2, 9, 2, 7⟩]⟩
    (n.handleAppendEntriesRequest ⟨0, 0⟩ ⟨3, 0, 0, 1, -1, [⟨3, 9, 3, 8⟩]⟩).store.log =
      [⟨1, 9, 0, 5⟩, ⟨3, 9, 3, 8⟩] := by
  intro n
  obtain ⟨-, hdiffers, -⟩ := (merge_law ⟨0, 0⟩ n ⟨3, 0, 0, 1, -1, [⟨3, 9, 3, 8⟩]⟩
    (by decide +kernel) (by decide +kernel) (.inr (by decide)) (by decide)).2
    (.inr ⟨_, rfl, rfl⟩) (by decide +kernel)
  have hpos : u32 (((0 : ℕ) : ℤ) + 1) = 1 := by decide +kernel
  rw [hpos] at hdiffers
  exact hdiffers 0 ⟨by decide, by decide⟩ (by omega)

end Node

end GeoRaft
