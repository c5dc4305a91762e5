import GeoRaft.Node.CommitRule
import GeoRaft.Node.Silence
import GeoRaft.Wire.Bounds

/-!
A node with other index tables.

Most of the functions of a node never look at the two tables; the ones that send
look at the next index of each other node, and the commit loop at their match
indexes, where it looks at all.
-/

namespace GeoRaft

open Word

namespace Node

variable {σ : Type} [Storage σ]

/-! ### Functions that leave the tables aside -/

omit [Storage σ] in
/-- The node with other tables. -/
def withTables (n : Node σ) (next : List ℕ) (mtch : List ℤ) : Node σ :=
  { n with nextIndex := next, matchIndex := mtch }

section

variable (n : Node σ) (next : List ℕ) (mtch : List ℤ)

omit [Storage σ] in
@[simp] theorem withTables_role : (n.withTables next mtch).role = n.role := rfl

omit [Storage σ] in
@[simp] theorem withTables_config : (n.withTables next mtch).config = n.config := rfl

omit [Storage σ] in
@[simp] theorem withTables_commitIndex : (n.withTables next mtch).commitIndex = n.commitIndex := rfl

omit [Storage σ] in
@[simp] theorem withTables_lastApplied : (n.withTables next mtch).lastApplied = n.lastApplied := rfl

omit [Storage σ] in
@[simp] theorem withTables_outstandingReqs :
    (n.withTables next mtch).outstandingReqs = n.outstandingReqs := rfl

@[simp] theorem withTables_get (f : PersistentField) : (n.withTables next mtch).get f = n.get f := rfl

@[simp] theorem withTables_logLength : (n.withTables next mtch).logLength = n.logLength := rfl

@[simp] theorem withTables_logRead (idx : ℤ) : (n.withTables next mtch).logRead idx = n.logRead idx :=
  rfl

@[simp] theorem withTables_raftGetLogTerm (idx : ℤ) :
    (n.withTables next mtch).raftGetLogTerm idx = n.raftGetLogTerm idx := rfl

@[simp] theorem withTables_logIsUpToDate (lastLogIdx lastLogTerm : ℕ) :
    (n.withTables next mtch).logIsUpToDate lastLogIdx lastLogTerm =
      n.logIsUpToDate lastLogIdx lastLogTerm := rfl

theorem becomeFollower_withTables (env : Env) (term leaderId : ℕ) :
    (n.withTables next mtch).becomeFollower env term leaderId =
      (n.becomeFollower env term leaderId).withTables next mtch := rfl

theorem decideVote_withTables (env : Env) (curTerm : ℕ) (req : RequestVoteReq) :
    (n.withTables next mtch).decideVote env curTerm req =
      (n.decideVote env curTerm req).withTables next mtch := by
  unfold decideVote
  dsimp only
  rw [withTables_get, withTables_logIsUpToDate]
  split
  · rfl
  split <;> rfl

theorem replyOutstanding_withTables (idx : ℤ) (entry : LogEntry) :
    (n.withTables next mtch).replyOutstanding idx entry =
      (n.replyOutstanding idx entry).withTables next mtch := by
  unfold replyOutstanding
  rw [withTables_outstandingReqs]
  split <;> rfl

theorem applyNext_withTables :
    (n.withTables next mtch).applyNext = n.applyNext.withTables next mtch := by
  cases hread : n.logRead (n.lastApplied + 1) with
  | none =>
      have hread' : (n.withTables next mtch).logRead (n.lastApplied + 1) = none := hread
      rw [applyNext_none hread, applyNext_none hread']
      rfl
  | some entry =>
      have hread' : (n.withTables next mtch).logRead (n.lastApplied + 1) = some entry := hread
      rw [applyNext_read hread, applyNext_read hread', withTables_role]
      split
      · exact replyOutstanding_withTables (n.appliedNext entry) next mtch _ entry
      · rfl

theorem applyLoop_withTables (fuel : ℕ) :
    applyLoop fuel (n.withTables next mtch) = (applyLoop fuel n).withTables next mtch := by
  induction fuel generalizing n with
  | zero => rfl
  | succ fuel ih =>
      rw [applyLoop, applyLoop, withTables_lastApplied, withTables_commitIndex]
      split
      · rw [applyNext_withTables, ih]
      · rfl

theorem applyToStateMachine_withTables :
    (n.withTables next mtch).applyToStateMachine = n.applyToStateMachine.withTables next mtch :=
  applyLoop_withTables n next mtch _

theorem storeEntries_withTables (newIdx i : ℕ) (logLen : ℤ) (entries : List LogEntry) :
    storeEntries newIdx i logLen entries (n.withTables next mtch) =
      (storeEntries newIdx i logLen entries n).withTables next mtch := by
  induction entries generalizing i logLen n with
  | nil => rfl
  | cons entry entries ih =>
      rw [storeEntries, storeEntries]
      dsimp only
      rw [withTables_raftGetLogTerm]
      split
      · split
        · exact ih ((n.logRemoveLastN _).logWrite _ entry) _ _
        · exact ih n _ _
      · exact ih (n.logWrite _ entry) _ _

theorem advanceCommit_withTables (req : AppendEntriesReq) :
    (n.withTables next mtch).advanceCommit req = (n.advanceCommit req).withTables next mtch := by
  unfold advanceCommit
  dsimp only
  generalize i32 (u32 (req.prevLogIdx + req.nEntries)) = last
  rw [withTables_commitIndex]
  split
  · generalize (if req.leaderCommit < last then req.leaderCommit else last) = commit
    exact applyToStateMachine_withTables { n with commitIndex := commit } next mtch
  · rfl

theorem acceptAppendEntries_withTables (env : Env) (curTerm : ℕ) (req : AppendEntriesReq) :
    (n.withTables next mtch).acceptAppendEntries env curTerm req =
      (n.acceptAppendEntries env curTerm req).withTables next mtch := by
  unfold acceptAppendEntries
  dsimp only
  generalize hm : setFaultDetectTimer env
    (if n.role = .follower ∧ req.nEntries = 0 then
      { n with heartbeatTelemetry := n.heartbeatTelemetry.recordInterval env.now } else n) = m
  have hm' : setFaultDetectTimer env
      (if (n.withTables next mtch).role = .follower ∧ req.nEntries = 0 then
        { n.withTables next mtch with
          heartbeatTelemetry := (n.withTables next mtch).heartbeatTelemetry.recordInterval env.now }
        else n.withTables next mtch) = m.withTables next mtch := by
    rw [← hm, withTables_role]
    split <;> rfl
  rw [hm', withTables_logLength]
  have hprev : (m.withTables next mtch).prevMatches m.logLength req ↔
      m.prevMatches m.logLength req := Iff.rfl
  by_cases hneg : m.logLength < 0
  · rw [if_pos hneg, if_pos hneg]
  rw [if_neg hneg, if_neg hneg]
  by_cases hcheck : m.prevMatches m.logLength req
  · rw [if_neg (not_not.mpr hcheck), if_neg (not_not.mpr (hprev.mpr hcheck)),
      storeEntries_withTables, advanceCommit_withTables]
    rfl
  · rw [if_pos hcheck, if_pos fun h => hcheck (hprev.mp h)]
    rfl

theorem handleAppendEntriesRequest_withTables (env : Env) (req : AppendEntriesReq) :
    (n.withTables next mtch).handleAppendEntriesRequest env req =
      (n.handleAppendEntriesRequest env req).withTables next mtch := by
  unfold handleAppendEntriesRequest
  dsimp only
  rw [withTables_get, withTables_role]
  split
  · rfl
  split
  · rfl
  split
  · rw [becomeFollower_withTables, acceptAppendEntries_withTables]
  · exact acceptAppendEntries_withTables { n with leaderId := req.leaderId } next mtch env _ req

theorem handleRequestVoteRequest_withTables (env : Env) (srcId : ℕ) (req : RequestVoteReq) :
    (n.withTables next mtch).handleRequestVoteRequest env srcId req =
      (n.handleRequestVoteRequest env srcId req).withTables next mtch := by
  unfold handleRequestVoteRequest
  dsimp only
  rw [withTables_get]
  split
  · rfl
  split
  · rfl
  split
  · rw [becomeFollower_withTables, decideVote_withTables]
  · rw [decideVote_withTables]

omit [Storage σ] in
theorem recordOutstanding_withTables (req : ProcReq) (logLen : ℤ) :
    (n.withTables next mtch).recordOutstanding req logLen =
      (n.recordOutstanding req logLen).withTables next mtch := by
  unfold recordOutstanding
  rw [withTables_outstandingReqs]
  split <;> rfl

theorem appendLogEntry_withTables (entry : LogEntry) :
    (n.withTables next mtch).appendLogEntry entry =
      (n.appendLogEntry entry).withTables next mtch := by
  unfold appendLogEntry
  dsimp only
  rw [withTables_logLength]
  split <;> rfl

end

/-! ### Functions that use them -/

section

variable (n : Node σ) (next : List ℕ) (mtch : List ℤ)

omit [Storage σ] in
theorem mem_others_iff {i : ℕ} : i ∈ n.others ↔ i < n.config.numNodes ∧ i ≠ n.config.id := by
  rw [others, List.mem_filter, List.mem_range, decide_eq_true_eq]

omit [Storage σ] in
theorem forOthers_send_withTables (rpc : Node σ → ℕ → Rpc)
    (h : ∀ (s : List (Effect σ)), ∀ i ∈ n.others,
      rpc (({ n with script := s } : Node σ).withTables next mtch) i = rpc { n with script := s } i) :
    (n.withTables next mtch).forOthers (fun m i => m.send i (rpc m i)) =
      (n.forOthers fun m i => m.send i (rpc m i)).withTables next mtch := by
  -- the nodes along the loop differ from the first one in what they have sent
  have hloop : ∀ (l : List ℕ), (∀ i ∈ l, i < n.config.numNodes) → ∀ s : List (Effect σ),
      l.foldl (fun (m : Node σ) i => if i = n.config.id then m else m.send i (rpc m i))
        (({ n with script := s } : Node σ).withTables next mtch) =
      (l.foldl (fun (m : Node σ) i => if i = n.config.id then m else m.send i (rpc m i))
        { n with script := s }).withTables next mtch := by
    intro l
    induction l with
    | nil => exact fun _ _ => rfl
    | cons i l ih =>
        intro hl s
        have hrest := ih fun j hj => hl j (List.mem_cons_of_mem _ hj)
        rw [List.foldl_cons, List.foldl_cons]
        by_cases hself : i = n.config.id
        · rw [if_pos hself, if_pos hself]
          exact hrest s
        · rw [if_neg hself, if_neg hself,
            h s i ((mem_others_iff n).mpr ⟨hl i List.mem_cons_self, hself⟩)]
          exact hrest _
  exact hloop _ (fun i hi => List.mem_range.mp hi) n.script

theorem getD_congr {α : Type*} {xs ys : List α} {i : ℕ} (h : xs[i]? = ys[i]?) (a : α) :
    xs.getD i a = ys.getD i a := by
  rw [List.getD_eq_getElem?_getD, List.getD_eq_getElem?_getD, h]

omit [Storage σ] in
theorem nextIndex_withTables {i : ℕ} (h : next[i]? = n.nextIndex[i]?) :
    (n.withTables next mtch).nextIndex.getD i 0 = n.nextIndex.getD i 0 := getD_congr h 0

theorem appendEntriesReqTo_withTables {i : ℕ} (h : next[i]? = n.nextIndex[i]?) (t : ℕ)
    (entries : List LogEntry) :
    (n.withTables next mtch).appendEntriesReqTo t i entries = n.appendEntriesReqTo t i entries := by
  unfold appendEntriesReqTo
  dsimp only
  rw [nextIndex_withTables n next mtch h]
  rfl

theorem entriesFor_withTables {i : ℕ} (h : next[i]? = n.nextIndex[i]?) (logLen : ℤ) :
    (n.withTables next mtch).entriesFor logLen i = n.entriesFor logLen i := by
  unfold entriesFor nToSend
  dsimp only
  rw [nextIndex_withTables n next mtch h]
  rfl

theorem broadcastAppendEntries_withTables (h : n.role = .leader → ∀ i ∈ n.others,
    next[i]? = n.nextIndex[i]?) :
    (n.withTables next mtch).broadcastAppendEntries =
      n.broadcastAppendEntries.withTables next mtch := by
  unfold broadcastAppendEntries
  rw [withTables_role]
  split
  · rfl
  · rename_i hr
    refine forOthers_send_withTables n next mtch _ fun s i hi => ?_
    have hi := h (not_not.mp hr) i hi
    rw [appendEntriesReqTo_withTables { n with script := s } next mtch hi,
      entriesFor_withTables { n with script := s } next mtch hi]

omit [Storage σ] in
theorem replicaCount_withTables (h : ∀ i ∈ n.others, mtch[i]? = n.matchIndex[i]?) (k : ℤ) :
    (n.withTables next mtch).replicaCount k = n.replicaCount k := by
  unfold replicaCount
  refine List.foldl_ext _ _ _ fun count i hi => ?_
  by_cases hself : i ≠ n.config.id
  · have hread : mtch.getD i (-1) = n.matchIndex.getD i (-1) :=
      getD_congr (h i ((mem_others_iff n).mpr ⟨List.mem_range.mp hi, hself⟩)) (-1)
    show (if i ≠ n.config.id ∧ mtch.getD i (-1) ≥ k then count + 1 else count) = _
    rw [hread]
  · rw [if_neg fun hcond => hself hcond.1, if_neg fun hcond => hself hcond.1]

theorem tryCommit_withTables {curTerm : ℕ} {k : ℤ} (h : n.raftGetLogTerm k = curTerm →
    ∀ i ∈ n.others, mtch[i]? = n.matchIndex[i]?) :
    (n.withTables next mtch).tryCommit curTerm k = (n.tryCommit curTerm k).withTables next mtch := by
  unfold tryCommit
  rw [withTables_raftGetLogTerm]
  split
  · rfl
  · rename_i hterm
    rw [replicaCount_withTables n next mtch (h (not_not.mp hterm)), withTables_config]
    split <;> rfl

theorem commitLoop_withTables (curTerm : ℕ) (logLen : ℤ)
    (h : ∀ k < (logLen - (n.commitIndex + 1)).toNat,
      n.raftGetLogTerm (n.commitIndex + 1 + k) = curTerm →
        ∀ i ∈ n.others, mtch[i]? = n.matchIndex[i]?) :
    (n.withTables next mtch).commitLoop curTerm logLen =
      (n.commitLoop curTerm logLen).withTables next mtch := by
  unfold commitLoop
  dsimp only
  rw [withTables_commitIndex]
  -- both loops go on from the same ledger
  have hloop : ∀ K ≤ (logLen - (n.commitIndex + 1)).toNat,
      (List.range K).foldl (fun nd (k : ℕ) => nd.tryCommit curTerm (n.commitIndex + 1 + k))
          (n.withTables next mtch) =
        ((List.range K).foldl (fun nd (k : ℕ) => nd.tryCommit curTerm (n.commitIndex + 1 + k))
          n).withTables next mtch ∧
      SameLedger n ((List.range K).foldl
        (fun nd (k : ℕ) => nd.tryCommit curTerm (n.commitIndex + 1 + k)) n) := by
    intro K
    induction K with
    | zero => exact fun _ => ⟨rfl, rfl, rfl, rfl, rfl⟩
    | succ K ih =>
        intro hK
        obtain ⟨heq, hled⟩ := ih (by omega)
        rw [List.range_succ, List.foldl_append, List.foldl_append, heq]
        generalize (List.range K).foldl
          (fun nd (k : ℕ) => nd.tryCommit curTerm (n.commitIndex + 1 + k)) n = m at hled ⊢
        refine ⟨tryCommit_withTables m next mtch fun hterm i hi => ?_, ?_⟩
        · rw [hled.raftGetLogTerm] at hterm
          rw [others, hled.config] at hi
          rw [hled.matchIndex]
          exact h K (by omega) hterm i hi
        · have hstep := tryCommit_ledger m curTerm (n.commitIndex + 1 + K)
          exact ⟨hstep.config.trans hled.config, hstep.store.trans hled.store,
            hstep.matchIndex.trans hled.matchIndex, hstep.lastApplied.trans hled.lastApplied⟩
  exact (hloop _ le_rfl).1

end

end Node

end GeoRaft
