import Mathlib.Data.List.Induction
import GeoRaft.Node.Quiet

/-!
`commit_index` and `last_applied` in the memory of a node.

Applying catches up with the commit index and leaves it alone, counting replicas
only raises it, and nothing else touches the two, with one exception: a follower
takes the smaller of the leader's commit index and the last index the request
speaks of, and the latter can be below what it has committed (`LowersCommit`).
-/

namespace GeoRaft.Node

open Word

variable {σ : Type} [Storage σ] {n n' : Node Disk}

/-! ### Applying -/

theorem replyOutstanding_eq (n : Node σ) (idx : ℤ) (entry : LogEntry) :
    n.replyOutstanding idx entry = { n with
      outstandingReqs := (n.replyOutstanding idx entry).outstandingReqs
      script := (n.replyOutstanding idx entry).script } := by
  unfold replyOutstanding
  split <;> rfl

theorem applyNext_eq (n : Node σ) :
    n.applyNext = { n with
      lastApplied := n.lastApplied + 1
      outstandingReqs := n.applyNext.outstandingReqs
      script := n.applyNext.script } := by
  unfold applyNext
  dsimp only
  split
  · rfl
  · split
    · rw [replyOutstanding_eq]
      rfl
    · rfl

theorem applyLoop_eq (fuel : ℕ) (n : Node σ) (h : fuel = (n.commitIndex - n.lastApplied).toNat) :
    applyLoop fuel n = { n with
      lastApplied := max n.lastApplied n.commitIndex
      outstandingReqs := (applyLoop fuel n).outstandingReqs
      script := (applyLoop fuel n).script } := by
  induction fuel generalizing n with
  | zero =>
      have hmax : max n.lastApplied n.commitIndex = n.lastApplied := by omega
      rw [hmax]
      rfl
  | succ fuel ih =>
      have hlt : n.lastApplied < n.commitIndex := by omega
      have hnext := n.applyNext_eq
      rw [applyLoop, if_pos hlt, ih n.applyNext]
      · generalize n.applyNext = m at hnext ⊢
        rw [hnext]
        have hmax : max (n.lastApplied + 1) n.commitIndex = max n.lastApplied n.commitIndex := by
          omega
        simp only [hmax]
      · rw [hnext]
        dsimp only
        omega

/-- Applying makes up for what is committed and not applied yet. -/
theorem applyToStateMachine_eq (n : Node σ) :
    n.applyToStateMachine = { n with
      lastApplied := max n.lastApplied n.commitIndex
      outstandingReqs := n.applyToStateMachine.outstandingReqs
      script := n.applyToStateMachine.script } :=
  applyLoop_eq _ n rfl

@[simp] theorem applyToStateMachine_store (n : Node σ) :
    n.applyToStateMachine.store = n.store := by
  rw [applyToStateMachine_eq]

@[simp] theorem applyToStateMachine_commitIndex (n : Node σ) :
    n.applyToStateMachine.commitIndex = n.commitIndex := by
  rw [applyToStateMachine_eq]

@[simp] theorem applyToStateMachine_lastApplied (n : Node σ) :
    n.applyToStateMachine.lastApplied = max n.lastApplied n.commitIndex := by
  rw [applyToStateMachine_eq]

/-- What the follower takes for its commit index, before it applies. -/
def committing (n : Node Disk) (req : AppendEntriesReq) : Node Disk :=
  let lastNewEntryIdx := i32 (u32 (req.prevLogIdx + req.nEntries))
  { n with commitIndex :=
      if req.leaderCommit < lastNewEntryIdx then req.leaderCommit else lastNewEntryIdx }

@[simp] theorem committing_store (n : Node Disk) (req : AppendEntriesReq) :
    (n.committing req).store = n.store := by rw [committing]

@[simp] theorem committing_config (n : Node Disk) (req : AppendEntriesReq) :
    (n.committing req).config = n.config := by rw [committing]

@[simp] theorem committing_script (n : Node Disk) (req : AppendEntriesReq) :
    (n.committing req).script = n.script := by rw [committing]

theorem advanceCommit_eq (n : Node Disk) (req : AppendEntriesReq) :
    n.advanceCommit req =
      if req.leaderCommit > n.commitIndex then (n.committing req).applyToStateMachine else n := by
  rw [advanceCommit, committing]

theorem advanceCommit_store (n : Node Disk) (req : AppendEntriesReq) :
    (n.advanceCommit req).store = n.store := by
  rw [advanceCommit_eq]
  split
  · rw [applyToStateMachine_store, committing]
  · rfl

/-! ### Neither committing nor applying -/

omit [Storage σ] in
/-- A loop that only sends changes nothing but the script. -/
theorem forOthers_send_eq (n : Node σ) (rpc : Node σ → ℕ → Rpc) :
    n.forOthers (fun m i => m.send i (rpc m i)) =
      { n with script := (n.forOthers fun m i => m.send i (rpc m i)).script } := by
  refine forOthers_induct (motive := fun _ m => m = { n with script := m.script }) n rfl
    fun k m _ hm => ?_
  split
  · exact hm
  · rw [hm]
    rfl

theorem sendHeartbeats_eq (n : Node σ) :
    n.sendHeartbeats = { n with script := n.sendHeartbeats.script } := by
  unfold sendHeartbeats
  split
  · rfl
  · exact forOthers_send_eq n _

theorem becomeLeader_nextIndex (env : Env) (n : Node σ) :
    (n.becomeLeader env).nextIndex = List.replicate n.config.numNodes (u32 n.logLength) := by
  unfold becomeLeader
  dsimp only
  rw [sendHeartbeats_eq]
  rfl

theorem becomeLeader_matchIndex (env : Env) (n : Node σ) :
    (n.becomeLeader env).matchIndex = List.replicate n.config.numNodes (-1) := by
  unfold becomeLeader
  dsimp only
  rw [sendHeartbeats_eq]
  rfl

theorem broadcastAppendEntries_eq (n : Node σ) :
    n.broadcastAppendEntries = { n with script := n.broadcastAppendEntries.script } := by
  unfold broadcastAppendEntries
  split
  · rfl
  · exact forOthers_send_eq n _

omit [Storage σ] in
theorem recordOutstanding_eq (n : Node σ) (req : ProcReq) (logLen : ℤ) :
    n.recordOutstanding req logLen =
      { n with outstandingReqs := (n.recordOutstanding req logLen).outstandingReqs } := by
  unfold recordOutstanding
  split <;> rfl

omit [Storage σ] in
@[simp] theorem recordOutstanding_store (n : Node σ) (req : ProcReq) (logLen : ℤ) :
    (n.recordOutstanding req logLen).store = n.store := by
  rw [recordOutstanding_eq]

omit [Storage σ] in
@[simp] theorem recordOutstanding_config (n : Node σ) (req : ProcReq) (logLen : ℤ) :
    (n.recordOutstanding req logLen).config = n.config := by
  rw [recordOutstanding_eq]

@[simp] theorem broadcastAppendEntries_store (n : Node σ) :
    n.broadcastAppendEntries.store = n.store := by
  rw [broadcastAppendEntries_eq]

theorem broadcastRequestVote_eq (n : Node σ) :
    n.broadcastRequestVote = { n with script := n.broadcastRequestVote.script } := by
  unfold broadcastRequestVote
  dsimp only
  split
  · rfl
  · exact forOthers_send_eq n _

/-- Neither index changes. -/
structure Still (n n' : Node Disk) : Prop where
  commit : n'.commitIndex = n.commitIndex
  applied : n'.lastApplied = n.lastApplied

theorem Still.refl (n : Node Disk) : Still n n := ⟨rfl, rfl⟩

theorem Still.trans {n n' n'' : Node Disk} (h : Still n n') (h' : Still n' n'') : Still n n'' :=
  ⟨h'.commit.trans h.commit, h'.applied.trans h.applied⟩

theorem put_still (n : Node Disk) (d : Disk) (event : Option Event) : Still n (n.put d event) :=
  ⟨rfl, rfl⟩

theorem send_still (n : Node Disk) (dst : ℕ) (rpc : Rpc) : Still n (n.send dst rpc) := ⟨rfl, rfl⟩

theorem votesReceived_still (n : Node Disk) (votes : ℕ) :
    Still n { n with votesReceived := votes } := ⟨rfl, rfl⟩

theorem setElectionTimer_still (env : Env) (n : Node Disk) : Still n (n.setElectionTimer env) :=
  ⟨rfl, rfl⟩

theorem sendHeartbeats_still (n : Node Disk) : Still n n.sendHeartbeats := by
  rw [sendHeartbeats_eq]
  exact ⟨rfl, rfl⟩

theorem broadcastAppendEntries_still (n : Node Disk) : Still n n.broadcastAppendEntries := by
  rw [broadcastAppendEntries_eq]
  exact ⟨rfl, rfl⟩

theorem broadcastRequestVote_still (n : Node Disk) : Still n n.broadcastRequestVote := by
  rw [broadcastRequestVote_eq]
  exact ⟨rfl, rfl⟩

theorem storeEntries_still (newIdx i : ℕ) (logLen : ℤ) (entries : List LogEntry)
    (n : Node Disk) : Still n (storeEntries newIdx i logLen entries n) := by
  induction entries generalizing i logLen n with
  | nil => exact .refl n
  | cons entry entries ih =>
      rw [storeEntries]
      dsimp only
      split
      · split
        · exact (put_still _ _ _).trans ((put_still _ _ _).trans (ih _ _ _))
        · exact ih _ _ _
      · exact (put_still _ _ _).trans (ih _ _ _)

theorem becomeFollower_still (env : Env) (n : Node Disk) (term leaderId : ℕ) :
    Still n (n.becomeFollower env term leaderId) := by
  constructor <;> simp only [becomeFollower, setFaultDetectTimer, set, put, note]

theorem startElection_still (env : Env) (n : Node Disk) : Still n (n.startElection env) := by
  unfold startElection
  dsimp only
  split
  · exact .refl n
  · refine Still.trans ?_ (broadcastRequestVote_still _)
    refine Still.trans ?_ (setElectionTimer_still env _)
    exact ((put_still n _ _).trans (put_still _ _ _)).trans (votesReceived_still _ 1)

theorem decideVote_still (env : Env) (n : Node Disk) (curTerm : ℕ) (req : RequestVoteReq) :
    Still n (n.decideVote env curTerm req) := by
  unfold decideVote
  dsimp only
  split
  · exact .refl n
  split
  · exact send_still _ _ _
  · exact (put_still n _ _).trans ((setElectionTimer_still env _).trans (send_still _ _ _))

/-! ### The two indexes only rise -/

structure Advances (n n' : Node Disk) : Prop where
  commit : n.commitIndex ≤ n'.commitIndex
  applied : n.lastApplied ≤ n.commitIndex → n'.lastApplied ≤ n'.commitIndex

theorem Still.advances (h : Still n n') : Advances n n' :=
  ⟨h.commit.ge, fun ha => by rwa [h.commit, h.applied]⟩

theorem Advances.refl (n : Node Disk) : Advances n n := (Still.refl n).advances

theorem Advances.trans {n n' n'' : Node Disk} (h : Advances n n') (h' : Advances n' n'') :
    Advances n n'' :=
  ⟨h.commit.trans h'.commit, fun hn => h'.applied (h.applied hn)⟩

theorem applyToStateMachine_advances (n : Node Disk) : Advances n n.applyToStateMachine where
  commit := by rw [applyToStateMachine_commitIndex]
  applied h := by
    rw [applyToStateMachine_commitIndex, applyToStateMachine_lastApplied]
    exact max_le h le_rfl

theorem commitLoop_advances (curTerm : ℕ) (logLen : ℤ) (n : Node Disk) :
    Advances n (n.commitLoop curTerm logLen) := by
  unfold commitLoop
  dsimp only
  -- the loop counts upwards from the commit index
  have hloop := foldl_range_induct
    (f := fun m (k : ℕ) => m.tryCommit curTerm (n.commitIndex + 1 + k))
    (motive := fun (k : ℕ) m => n.commitIndex ≤ m.commitIndex ∧ m.commitIndex ≤ n.commitIndex + k ∧
      m.lastApplied = n.lastApplied) (b := n) (logLen - (n.commitIndex + 1)).toNat
    ⟨le_rfl, by omega, rfl⟩ fun k m _ ⟨hlo, hhi, ha⟩ => by
      unfold tryCommit
      split
      · exact ⟨hlo, by omega, ha⟩
      · split
        · refine ⟨?_, ?_, ha⟩
          all_goals
            dsimp only
            omega
        · exact ⟨hlo, by omega, ha⟩
  obtain ⟨hc, -, ha⟩ := hloop
  exact ⟨hc, fun h => by rw [ha]; omega⟩

/-- The request is accepted, and the last index it speaks of is below the commit
index of the node, which is below the leader's. -/
def LowersCommit (n : Node Disk) (req : AppendEntriesReq) : Prop :=
  u32 (n.get .currentTerm) ≤ req.term ∧ n.prevMatches n.logLength req ∧
    n.commitIndex < req.leaderCommit ∧
    i32 (u32 (req.prevLogIdx + req.nEntries)) < n.commitIndex

instance (n : Node Disk) (req : AppendEntriesReq) : Decidable (n.LowersCommit req) :=
  inferInstanceAs (Decidable (_ ∧ _))

theorem advanceCommit_advances (n : Node Disk) {req : AppendEntriesReq}
    (h : n.commitIndex < req.leaderCommit →
      n.commitIndex ≤ i32 (u32 (req.prevLogIdx + req.nEntries))) :
    Advances n (n.advanceCommit req) := by
  rw [advanceCommit_eq]
  split
  · rename_i hgt
    have hlast := h hgt
    have hcommitting : Advances n (n.committing req) := by
      unfold committing
      generalize i32 (u32 (req.prevLogIdx + req.nEntries)) = last at hlast ⊢
      refine ⟨?_, fun ha => ?_⟩
      all_goals
        dsimp only
        split <;> omega
    exact hcommitting.trans (applyToStateMachine_advances _)
  · exact .refl n

theorem prevMatches_congr (h : n'.store.log = n.store.log) (logLen : ℤ) (req : AppendEntriesReq) :
    n'.prevMatches logLen req ↔ n.prevMatches logLen req := by
  have hlen : n'.logLength = n.logLength := by
    rw [logLength, logLength, Disk.storage_length, Disk.storage_length, h]
  have hread : ∀ idx, n'.logRead idx = n.logRead idx := fun idx => by
    rw [logRead, logRead, Disk.storage_read, Disk.storage_read, Disk.read, Disk.read, h]
  rw [prevMatches, prevMatches, raftGetLogTerm, raftGetLogTerm, hlen, hread]

/-! ### Handlers -/

theorem acceptAppendEntries_advances (env : Env) (n : Node Disk) (curTerm : ℕ)
    {req : AppendEntriesReq} (h : n.prevMatches n.logLength req → n.commitIndex < req.leaderCommit →
      n.commitIndex ≤ i32 (u32 (req.prevLogIdx + req.nEntries))) :
    Advances n (n.acceptAppendEntries env curTerm req) := by
  unfold acceptAppendEntries
  dsimp only
  generalize hm : setFaultDetectTimer env _ = m
  obtain ⟨hs, hstill⟩ : m.store = n.store ∧ Still n m := by
    subst hm
    split <;> exact ⟨rfl, rfl, rfl⟩
  have hlen : m.logLength = n.logLength := by rw [logLength, logLength, hs]
  split
  · exact hstill.advances
  split
  · exact (hstill.trans (send_still _ _ _)).advances
  · rename_i hcheck
    rw [not_not, hlen] at hcheck
    have hcheck' := (prevMatches_congr (congrArg Disk.log hs) n.logLength req).mp hcheck
    have hstored := hstill.trans
      (storeEntries_still (u32 (req.prevLogIdx + 1)) 0 m.logLength req.entries m)
    generalize storeEntries (u32 (req.prevLogIdx + 1)) 0 m.logLength req.entries m = m' at hstored ⊢
    refine hstored.advances.trans (Advances.trans (advanceCommit_advances m' ?_)
      (send_still _ _ _).advances)
    rw [hstored.commit]
    exact h hcheck'

theorem handleAppendEntriesRequest_advances (env : Env) {n : Node Disk} {req : AppendEntriesReq}
    (hlt : n.store.currentTerm < 2 ^ 31) (hreq : req.term < 2 ^ 31) (h : ¬n.LowersCommit req) :
    Advances n (n.handleAppendEntriesRequest env req) := by
  have hcur : u32 (n.get .currentTerm) = n.store.currentTerm := by
    rw [get_currentTerm, u32_i32, u32_of_nat (by omega)]
  unfold handleAppendEntriesRequest
  dsimp only
  rw [hcur]
  split
  · exact .refl n
  split
  · exact (send_still _ _ _).advances
  · rename_i hstale
    -- the node may become a follower first, which changes neither its log nor its indexes
    have haccept : ∀ m : Node Disk, m.store.log = n.store.log → Still n m →
        Advances n (m.acceptAppendEntries env n.store.currentTerm req) := by
      intro m hlog hstill
      refine hstill.advances.trans (acceptAppendEntries_advances env m _ fun hcheck hgt => ?_)
      have hlen : m.logLength = n.logLength := by
        rw [logLength, logLength, Disk.storage_length, Disk.storage_length, hlog]
      rw [hlen] at hcheck
      have hcheck' := (prevMatches_congr hlog n.logLength req).mp hcheck
      rw [hstill.commit] at hgt ⊢
      by_contra hlow
      exact h ⟨by omega, hcheck', hgt, by omega⟩
    split
    · refine haccept _ ?_ (becomeFollower_still env n _ _)
      rw [becomeFollower_store env n hreq]
    · exact haccept _ rfl ⟨rfl, rfl⟩

theorem handleAppendEntriesResponse_advances (env : Env) (n : Node Disk) (srcId : ℕ)
    (resp : AppendEntriesRes) : Advances n (n.handleAppendEntriesResponse env srcId resp) := by
  unfold handleAppendEntriesResponse
  dsimp only
  split
  · exact (becomeFollower_still env n _ _).advances
  split
  · exact .refl n
  split
  · refine Advances.trans ?_ ((commitLoop_advances _ _ _).trans (applyToStateMachine_advances _))
    exact Still.advances ⟨rfl, rfl⟩
  split
  · exact Still.advances ⟨rfl, rfl⟩
  · exact .refl n

theorem handleRequestVoteRequest_still (env : Env) (n : Node Disk) (srcId : ℕ)
    (req : RequestVoteReq) : Still n (n.handleRequestVoteRequest env srcId req) := by
  unfold handleRequestVoteRequest
  dsimp only
  split
  · exact .refl n
  split
  · exact send_still _ _ _
  split
  · exact (becomeFollower_still env n _ _).trans (decideVote_still env _ _ _)
  · exact decideVote_still env n _ _

theorem becomeLeader_still (env : Env) (n : Node Disk) : Still n (n.becomeLeader env) := by
  unfold becomeLeader
  dsimp only
  refine Still.trans ?_ (sendHeartbeats_still _)
  exact ⟨rfl, rfl⟩

theorem handleRequestVoteResponse_still (env : Env) (n : Node Disk) (srcId : ℕ)
    (resp : RequestVoteRes) : Still n (n.handleRequestVoteResponse env srcId resp) := by
  unfold handleRequestVoteResponse
  dsimp only
  split
  · exact .refl n
  split
  · exact becomeFollower_still env n _ _
  split
  · exact .refl n
  split
  · split
    · refine Still.trans ?_ (becomeLeader_still env _)
      exact ⟨rfl, rfl⟩
    · exact ⟨rfl, rfl⟩
  · exact .refl n

theorem handleProcRequest_still (n : Node Disk) (req : ProcReq) (srcId : ℕ) :
    Still n (n.handleProcRequest req srcId) := by
  have happend : ∀ entry, Still n (n.appendLogEntry entry) := fun entry => by
    unfold appendLogEntry
    dsimp only
    split
    · exact .refl n
    · exact put_still _ _ _
  have hrecord : ∀ (m : Node Disk) (logLen : ℤ), Still m (m.recordOutstanding req logLen) :=
    fun m logLen => by
      rw [recordOutstanding_eq]
      exact ⟨rfl, rfl⟩
  unfold handleProcRequest
  dsimp only
  split
  · exact send_still _ _ _
  · exact (happend _).trans ((hrecord _ _).trans (broadcastAppendEntries_still _))

theorem raftHandleTimeout_still (env : Env) (n : Node Disk) : Still n (n.raftHandleTimeout env) := by
  have hcandidate : Still n (n.becomeCandidate env) := by
    refine Still.trans ?_ (startElection_still env _)
    exact ⟨rfl, rfl⟩
  unfold raftHandleTimeout
  split
  · split
    · exact hcandidate
    split
    · exact hcandidate
    · exact ⟨rfl, rfl⟩
  · exact startElection_still env n
  · have hbeat := sendHeartbeats_still (n.setHeartbeatTimer env)
    dsimp only
    generalize (n.setHeartbeatTimer env).sendHeartbeats = m at hbeat ⊢
    have hm : Still n m := ⟨hbeat.commit, hbeat.applied⟩
    split
    · exact hm.trans ⟨rfl, rfl⟩
    · exact hm.trans ⟨rfl, rfl⟩

/-- No packet lowers the commit index, but a request of the kind above. -/
theorem raftHandleRpc_advances (env : Env) {n : Node Disk} {pkt : Pkt}
    (hlt : n.store.currentTerm < 2 ^ 31) (hpkt : pkt.rpc.term < 2 ^ 31)
    (h : ∀ req, pkt.rpc = .appendEntriesReq req → ¬n.LowersCommit req) :
    Advances n (n.raftHandleRpc env pkt) := by
  unfold raftHandleRpc
  cases hrpc : pkt.rpc with
  | appendEntriesReq req =>
      rw [hrpc] at hpkt
      exact handleAppendEntriesRequest_advances env hlt hpkt (h req hrpc)
  | appendEntriesRes resp => exact handleAppendEntriesResponse_advances env n _ resp
  | requestVoteReq req => exact (handleRequestVoteRequest_still env n _ req).advances
  | requestVoteRes resp => exact (handleRequestVoteResponse_still env n _ resp).advances
  | procReq req => exact (handleProcRequest_still n req _).advances
  | procRes resp => exact .refl n

end GeoRaft.Node
