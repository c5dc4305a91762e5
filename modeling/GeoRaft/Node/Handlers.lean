import GeoRaft.Node.Commit

/-!
What each handler comes to.

A handler either leaves the role, the term and the vote of the node alone, or it
is one of a few transitions: the node follows, stands, votes or wins. The lemmas
`*_cases` say which of them a handler is and when, so that what holds across the
handlers has to be shown for the transitions only.
-/

namespace GeoRaft.Node

open Word

variable {n n' : Node Disk}

/-- The fields of the memory that only elections and responses change. -/
structure Keeps (n n' : Node Disk) : Prop where
  config : n'.config = n.config
  role : n'.role = n.role
  leaderId : n'.leaderId = n.leaderId
  votesReceived : n'.votesReceived = n.votesReceived
  nextIndex : n'.nextIndex = n.nextIndex
  matchIndex : n'.matchIndex = n.matchIndex

theorem Keeps.refl (n : Node Disk) : Keeps n n := ⟨rfl, rfl, rfl, rfl, rfl, rfl⟩

theorem Keeps.trans {n n' n'' : Node Disk} (h : Keeps n n') (h' : Keeps n' n'') : Keeps n n'' where
  config := h'.config.trans h.config
  role := h'.role.trans h.role
  leaderId := h'.leaderId.trans h.leaderId
  votesReceived := h'.votesReceived.trans h.votesReceived
  nextIndex := h'.nextIndex.trans h.nextIndex
  matchIndex := h'.matchIndex.trans h.matchIndex

theorem put_keeps (n : Node Disk) (d : Disk) (event : Option Event) : Keeps n (n.put d event) :=
  ⟨rfl, rfl, rfl, rfl, rfl, rfl⟩

theorem send_keeps (n : Node Disk) (dst : ℕ) (rpc : Rpc) : Keeps n (n.send dst rpc) :=
  ⟨rfl, rfl, rfl, rfl, rfl, rfl⟩

theorem setElectionTimer_keeps (env : Env) (n : Node Disk) : Keeps n (n.setElectionTimer env) :=
  ⟨rfl, rfl, rfl, rfl, rfl, rfl⟩

theorem setFaultDetectTimer_keeps (env : Env) (n : Node Disk) :
    Keeps n (n.setFaultDetectTimer env) :=
  ⟨rfl, rfl, rfl, rfl, rfl, rfl⟩

theorem setHeartbeatTimer_keeps (env : Env) (n : Node Disk) : Keeps n (n.setHeartbeatTimer env) :=
  ⟨rfl, rfl, rfl, rfl, rfl, rfl⟩

theorem setHeartbeatTimer_quiet (env : Env) (n : Node Disk) : Quiet n (n.setHeartbeatTimer env) :=
  .mem rfl rfl rfl rfl rfl

theorem sendHeartbeats_keeps (n : Node Disk) : Keeps n n.sendHeartbeats := by
  rw [sendHeartbeats_eq]
  exact ⟨rfl, rfl, rfl, rfl, rfl, rfl⟩

theorem broadcastAppendEntries_keeps (n : Node Disk) : Keeps n n.broadcastAppendEntries := by
  rw [broadcastAppendEntries_eq]
  exact ⟨rfl, rfl, rfl, rfl, rfl, rfl⟩

theorem broadcastRequestVote_keeps (n : Node Disk) : Keeps n n.broadcastRequestVote := by
  rw [broadcastRequestVote_eq]
  exact ⟨rfl, rfl, rfl, rfl, rfl, rfl⟩

theorem applyToStateMachine_keeps (n : Node Disk) : Keeps n n.applyToStateMachine := by
  rw [applyToStateMachine_eq]
  exact ⟨rfl, rfl, rfl, rfl, rfl, rfl⟩

theorem recordOutstanding_keeps (n : Node Disk) (req : ProcReq) (logLen : ℤ) :
    Keeps n (n.recordOutstanding req logLen) := by
  rw [recordOutstanding_eq]
  exact ⟨rfl, rfl, rfl, rfl, rfl, rfl⟩

theorem appendLogEntry_keeps (n : Node Disk) (entry : LogEntry) : Keeps n (n.appendLogEntry entry) := by
  unfold appendLogEntry
  dsimp only
  split
  · exact .refl n
  · exact put_keeps _ _ _

theorem storeEntries_keeps (newIdx i : ℕ) (logLen : ℤ) (entries : List LogEntry) (n : Node Disk) :
    Keeps n (storeEntries newIdx i logLen entries n) := by
  induction entries generalizing i logLen n with
  | nil => exact .refl n
  | cons entry entries ih =>
      rw [storeEntries]
      dsimp only
      split
      · split
        · exact (put_keeps _ _ _).trans ((put_keeps _ _ _).trans (ih _ _ _))
        · exact ih _ _ _
      · exact (put_keeps _ _ _).trans (ih _ _ _)

theorem committing_keeps (n : Node Disk) (req : AppendEntriesReq) : Keeps n (n.committing req) := by
  unfold committing
  generalize i32 (u32 (req.prevLogIdx + req.nEntries)) = last
  exact ⟨rfl, rfl, rfl, rfl, rfl, rfl⟩

theorem advanceCommit_keeps (n : Node Disk) (req : AppendEntriesReq) :
    Keeps n (n.advanceCommit req) := by
  rw [advanceCommit_eq]
  split
  · exact (committing_keeps n req).trans (applyToStateMachine_keeps _)
  · exact .refl n

theorem acceptAppendEntries_keeps (env : Env) (n : Node Disk) (curTerm : ℕ)
    (req : AppendEntriesReq) : Keeps n (n.acceptAppendEntries env curTerm req) := by
  unfold acceptAppendEntries
  dsimp only
  generalize hm : setFaultDetectTimer env _ = m
  have hk : Keeps n m := by
    subst hm
    split <;> exact ⟨rfl, rfl, rfl, rfl, rfl, rfl⟩
  split
  · exact hk
  split
  · exact hk.trans (send_keeps _ _ _)
  · exact hk.trans ((storeEntries_keeps _ _ _ _ m).trans
      ((advanceCommit_keeps _ req).trans (send_keeps _ _ _)))

theorem commitLoop_keeps (curTerm : ℕ) (logLen : ℤ) (n : Node Disk) :
    Keeps n (n.commitLoop curTerm logLen) := by
  unfold commitLoop
  refine foldl_range_induct (motive := fun _ m => Keeps n m) _ (.refl n) fun k m _ hm => ?_
  unfold tryCommit
  split
  · exact hm
  · split
    · exact hm.trans ⟨rfl, rfl, rfl, rfl, rfl, rfl⟩
    · exact hm

theorem handleProcRequest_keeps (n : Node Disk) (req : ProcReq) (srcId : ℕ) :
    Keeps n (n.handleProcRequest req srcId) := by
  unfold handleProcRequest
  dsimp only
  split
  · exact send_keeps _ _ _
  · exact (appendLogEntry_keeps n _).trans
      ((recordOutstanding_keeps _ _ _).trans (broadcastAppendEntries_keeps _))

theorem decideVote_keeps (env : Env) (n : Node Disk) (curTerm : ℕ) (req : RequestVoteReq) :
    Keeps n (n.decideVote env curTerm req) := by
  unfold decideVote
  dsimp only
  split
  · exact .refl n
  split
  · exact send_keeps _ _ _
  · exact (put_keeps n _ _).trans ((setElectionTimer_keeps env _).trans (send_keeps _ _ _))

/-- As `Keeps`, while votes may be counted. -/
structure Stays (n n' : Node Disk) : Prop where
  config : n'.config = n.config
  role : n'.role = n.role
  leaderId : n'.leaderId = n.leaderId
  nextIndex : n'.nextIndex = n.nextIndex
  matchIndex : n'.matchIndex = n.matchIndex

theorem Keeps.stays (h : Keeps n n') : Stays n n' :=
  ⟨h.config, h.role, h.leaderId, h.nextIndex, h.matchIndex⟩

theorem Stays.trans {n n' n'' : Node Disk} (h : Stays n n') (h' : Stays n' n'') : Stays n n'' where
  config := h'.config.trans h.config
  role := h'.role.trans h.role
  leaderId := h'.leaderId.trans h.leaderId
  nextIndex := h'.nextIndex.trans h.nextIndex
  matchIndex := h'.matchIndex.trans h.matchIndex

theorem votesReceived_stays (n : Node Disk) (votes : ℕ) :
    Stays n { n with votesReceived := votes } := ⟨rfl, rfl, rfl, rfl, rfl⟩

theorem startElection_stays (env : Env) (n : Node Disk) : Stays n (n.startElection env) := by
  unfold startElection
  dsimp only
  split
  · exact (Keeps.refl n).stays
  · refine Stays.trans ?_ (broadcastRequestVote_keeps _).stays
    refine Stays.trans ?_ (setElectionTimer_keeps env _).stays
    refine Stays.trans ?_ (votesReceived_stays _ 1)
    exact ((put_keeps n _ _).trans (put_keeps _ _ _)).stays

theorem becomeCandidate_stays (env : Env) (n : Node Disk) :
    Stays { n with role := .candidate, leaderId := noLeader } (n.becomeCandidate env) := by
  unfold becomeCandidate
  dsimp only
  refine Stays.trans ?_ (startElection_stays env _)
  exact ⟨rfl, rfl, rfl, rfl, rfl⟩

/-- Nothing of the election of the node changes, on disk or in memory. -/
structure Idles (n n' : Node Disk) : Prop where
  keeps : Keeps n n'
  quiet : Quiet n n'

theorem Idles.refl (n : Node Disk) : Idles n n := ⟨.refl n, .refl n⟩

/-! ### The handlers -/

theorem acceptAppendEntries_idles (env : Env) (n : Node Disk) {curTerm : ℕ}
    (h : curTerm ≤ n.store.currentTerm) (req : AppendEntriesReq) :
    Idles n (n.acceptAppendEntries env curTerm req) :=
  ⟨acceptAppendEntries_keeps env n curTerm req, acceptAppendEntries_quiet env n h req⟩

/-- A request of a leader: the node follows it, or just takes its id. -/
theorem handleAppendEntriesRequest_cases (env : Env) (n : Node Disk) {req : AppendEntriesReq}
    (hreq : req.term < 2 ^ 32) :
    Idles n (n.handleAppendEntriesRequest env req) ∨
    ((u32 (n.get .currentTerm) < req.term ∨
        req.term = u32 (n.get .currentTerm) ∧ n.role = .candidate) ∧
      Idles (n.becomeFollower env req.term req.leaderId) (n.handleAppendEntriesRequest env req)) ∨
    (req.term = u32 (n.get .currentTerm) ∧ n.role ≠ .candidate ∧
      Idles { n with leaderId := req.leaderId } (n.handleAppendEntriesRequest env req)) := by
  have hle := n.get_currentTerm_le
  unfold handleAppendEntriesRequest
  dsimp only
  generalize u32 (n.get .currentTerm) = curTerm at hle ⊢
  split
  · exact .inl (.refl n)
  split
  · exact .inl ⟨send_keeps _ _ _, .appendEntriesRes hle⟩
  · rename_i hstale
    split
    · rename_i hcond
      refine .inr (.inl ⟨hcond, ?_⟩)
      have hterm : (n.becomeFollower env req.term req.leaderId).store.currentTerm = u32 req.term :=
        rfl
      generalize n.becomeFollower env req.term req.leaderId = m at hterm ⊢
      refine acceptAppendEntries_idles env m ?_ req
      rw [hterm, u32_of_nat hreq]
      omega
    · rename_i hcond
      refine .inr (.inr ⟨by omega, fun hr => hcond (.inr ⟨by omega, hr⟩), ?_⟩)
      exact acceptAppendEntries_idles env { n with leaderId := req.leaderId } hle req

/-- What a leader writes down for a success. -/
def credit (n : Node Disk) (srcId : ℕ) (resp : AppendEntriesRes) : Node Disk :=
  { n with
    matchIndex := n.matchIndex.set srcId (i32 resp.newMatchIndex)
    nextIndex := n.nextIndex.set srcId (u32 n.logLength) }

theorem credit_matchIndex (n : Node Disk) (srcId : ℕ) (resp : AppendEntriesRes) :
    (n.credit srcId resp).matchIndex = n.matchIndex.set srcId (i32 resp.newMatchIndex) := by
  rw [credit]

/-- What a leader writes down for a failure. -/
def debit (n : Node Disk) (srcId : ℕ) : Node Disk :=
  { n with nextIndex := n.nextIndex.modify srcId (· - 1) }

theorem commitLoop_idles (curTerm : ℕ) (logLen : ℤ) (n : Node Disk) :
    Idles n ((n.commitLoop curTerm logLen).applyToStateMachine) :=
  ⟨(commitLoop_keeps _ _ n).trans (applyToStateMachine_keeps _),
    (commitLoop_quiet _ _ n).trans (applyToStateMachine_quiet _)⟩

/-- A response to a request of a leader. -/
theorem handleAppendEntriesResponse_cases (env : Env) (n : Node Disk) (srcId : ℕ)
    (resp : AppendEntriesRes) :
    (u32 (n.get .currentTerm) < resp.term ∧
      n.handleAppendEntriesResponse env srcId resp = n.becomeFollower env resp.term srcId) ∨
    n.handleAppendEntriesResponse env srcId resp = n ∨
    (n.role = .leader ∧ resp.term = u32 (n.get .currentTerm) ∧
      (resp.success ≠ 0 ∧
        Idles (n.credit srcId resp) (n.handleAppendEntriesResponse env srcId resp) ∨
      resp.success = 0 ∧ 0 < n.nextIndex.getD srcId 0 ∧
        n.handleAppendEntriesResponse env srcId resp = n.debit srcId)) := by
  unfold handleAppendEntriesResponse
  dsimp only
  split
  · rename_i hlt
    exact .inl ⟨hlt, rfl⟩
  · rename_i hlt
    split
    · exact .inr (.inl rfl)
    · rename_i hcond
      push Not at hcond
      have hterm : resp.term = u32 (n.get .currentTerm) := by omega
      split
      · rename_i hs
        exact .inr (.inr ⟨hcond.1, hterm, .inl ⟨hs, commitLoop_idles _ _ (n.credit srcId resp)⟩⟩)
      · rename_i hs
        split
        · rename_i hpos
          exact .inr (.inr ⟨hcond.1, hterm, .inr ⟨not_not.mp hs, hpos, rfl⟩⟩)
        · exact .inr (.inl rfl)

/-- A vote is given, which resets the election timer. -/
def grant (env : Env) (n : Node Disk) (curTerm : ℕ) (req : RequestVoteReq) : Node Disk :=
  ((n.set .votedFor req.candidateId (some (.vote curTerm req.candidateId))).setElectionTimer env).send
    req.candidateId (.requestVoteRes ⟨curTerm, 1⟩)

theorem refuse_idles {curTerm : ℕ} (h : curTerm ≤ n.store.currentTerm) {dst : ℕ} :
    Idles n (n.send dst (.requestVoteRes ⟨curTerm, 0⟩)) := by
  refine ⟨send_keeps _ _ _, QuietStep.quiet ?_⟩
  refine .send ?_ ?_
  · exact h
  · exact fun hne => hne rfl

theorem decideVote_cases (env : Env) (n : Node Disk) {curTerm : ℕ}
    (h : curTerm ≤ n.store.currentTerm) (req : RequestVoteReq) :
    Idles n (n.decideVote env curTerm req) ∨
    n.decideVote env curTerm req = n.grant env curTerm req := by
  unfold decideVote
  dsimp only
  split
  · exact .inl (.refl n)
  split
  · exact .inl (refuse_idles h)
  · exact .inr rfl

/-- A candidate's request: it may make the node a follower of its term first. -/
theorem handleRequestVoteRequest_cases (env : Env) (n : Node Disk) (srcId : ℕ)
    (req : RequestVoteReq) :
    Idles n (n.handleRequestVoteRequest env srcId req) ∨
    (u32 (n.get .currentTerm) < req.term ∧ n.handleRequestVoteRequest env srcId req =
      (n.becomeFollower env req.term srcId).decideVote env req.term req) ∨
    (req.term = u32 (n.get .currentTerm) ∧ n.handleRequestVoteRequest env srcId req =
      n.decideVote env req.term req) := by
  have hle := n.get_currentTerm_le
  unfold handleRequestVoteRequest
  dsimp only
  generalize u32 (n.get .currentTerm) = curTerm at hle ⊢
  split
  · exact .inl (.refl n)
  split
  · exact .inl (refuse_idles hle)
  · rename_i hstale
    split
    · rename_i hlt
      exact .inr (.inl ⟨hlt, rfl⟩)
    · have heq : req.term = curTerm := by omega
      rw [heq]
      exact .inr (.inr ⟨rfl, rfl⟩)

def countVote (n : Node Disk) : Node Disk := { n with votesReceived := n.votesReceived + 1 }

/-- A vote, given or refused. -/
theorem handleRequestVoteResponse_cases (env : Env) (n : Node Disk) (srcId : ℕ)
    (resp : RequestVoteRes) :
    n.handleRequestVoteResponse env srcId resp = n ∨
    (n.role = .candidate ∧ u32 (n.get .currentTerm) < resp.term ∧
      n.handleRequestVoteResponse env srcId resp = n.becomeFollower env resp.term srcId) ∨
    (n.role = .candidate ∧ resp.term = u32 (n.get .currentTerm) ∧ resp.voteGranted ≠ 0 ∧
      n.handleRequestVoteResponse env srcId resp =
        if n.countVote.votesReceived > n.config.numNodes / 2 then n.countVote.becomeLeader env
        else n.countVote) := by
  unfold handleRequestVoteResponse
  dsimp only
  split
  · exact .inl rfl
  · rename_i hr
    split
    · rename_i hlt
      exact .inr (.inl ⟨not_not.mp hr, hlt, rfl⟩)
    split
    · exact .inl rfl
    · rename_i hge hlt
      split
      · rename_i hg
        exact .inr (.inr ⟨not_not.mp hr, by omega, hg, rfl⟩)
      · exact .inl rfl

theorem handleProcRequest_idles (n : Node Disk) (req : ProcReq) (srcId : ℕ) :
    Idles n (n.handleProcRequest req srcId) :=
  ⟨handleProcRequest_keeps n req srcId, handleProcRequest_quiet n req srcId⟩

/-- A timeout: the node stands for election or, as a leader, beats. -/
theorem raftHandleTimeout_cases (env : Env) (n : Node Disk) :
    Idles n (n.raftHandleTimeout env) ∨
    (n.role = .follower ∧ n.raftHandleTimeout env = n.becomeCandidate env) ∨
    (n.role = .candidate ∧ n.raftHandleTimeout env = n.startElection env) := by
  unfold raftHandleTimeout
  cases hr : n.role with
  | follower =>
      dsimp only
      split
      · exact .inr (.inl ⟨rfl, rfl⟩)
      split
      · exact .inr (.inl ⟨rfl, rfl⟩)
      · exact .inl ⟨setFaultDetectTimer_keeps env n, .mem rfl rfl rfl rfl rfl⟩
  | candidate => exact .inr (.inr ⟨rfl, rfl⟩)
  | leader =>
      dsimp only
      have hkeeps : Keeps n (n.setHeartbeatTimer env).sendHeartbeats :=
        (setHeartbeatTimer_keeps env n).trans (sendHeartbeats_keeps _)
      have hquiet : Quiet n (n.setHeartbeatTimer env).sendHeartbeats :=
        (setHeartbeatTimer_quiet env n).trans (sendHeartbeats_quiet _)
      generalize (n.setHeartbeatTimer env).sendHeartbeats = m at hkeeps hquiet ⊢
      have hcount : Idles n { m with heartbeatCount := m.heartbeatCount + 1 } :=
        ⟨hkeeps.trans ⟨rfl, rfl, rfl, rfl, rfl, rfl⟩, hquiet.trans (.mem rfl rfl rfl rfl rfl)⟩
      split
      · refine .inl ⟨hcount.keeps.trans ⟨rfl, rfl, rfl, rfl, rfl, rfl⟩, ?_⟩
        exact hcount.quiet.trans QuietStep.exit.quiet
      · exact .inl hcount

end GeoRaft.Node
