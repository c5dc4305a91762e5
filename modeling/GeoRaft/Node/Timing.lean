import Mathlib.Logic.Relation
import GeoRaft.Node.Commit

/-!
What a handler does to the timer and to the failure detector.

It either leaves the start of the timer alone or makes it the reading of the clock
that the handler runs on, and it resets the detector or records a heartbeat at that
reading.
-/

namespace GeoRaft

open Word

namespace HeartbeatTelemetry

/-- The detector was reset, or heard of a heartbeat, any number of times. -/
def Reports (now : ℕ) : HeartbeatTelemetry → HeartbeatTelemetry → Prop :=
  Relation.ReflTransGen fun t t' => t' = t.reset ∨ t' = t.recordInterval now

end HeartbeatTelemetry

namespace Node

open HeartbeatTelemetry

variable {σ : Type} {n n' n'' : Node σ} {env : Env}

/-- Neither has changed. -/
structure SameClocks (n n' : Node σ) : Prop where
  timer : n'.timer = n.timer
  telemetry : n'.heartbeatTelemetry = n.heartbeatTelemetry

theorem SameClocks.refl (n : Node σ) : SameClocks n n := ⟨rfl, rfl⟩

theorem SameClocks.trans (h : SameClocks n n') (h' : SameClocks n' n'') : SameClocks n n'' :=
  ⟨h'.timer.trans h.timer, h'.telemetry.trans h.telemetry⟩

/-- The timer runs on or was started just now, and the detector knows what it may. -/
structure Ticks (env : Env) (n n' : Node σ) : Prop where
  start : n'.timer.startUsec = n.timer.startUsec ∨ n'.timer.startUsec = env.now
  telemetry : Reports env.now n.heartbeatTelemetry n'.heartbeatTelemetry

theorem SameClocks.ticks (h : SameClocks n n') : Ticks env n n' where
  start := .inl (by rw [h.timer])
  telemetry := by
    rw [h.telemetry]
    exact .refl

theorem Ticks.refl (n : Node σ) : Ticks env n n := (SameClocks.refl n).ticks

theorem Ticks.trans (h : Ticks env n n') (h' : Ticks env n' n'') : Ticks env n n'' where
  start := by
    rcases h'.start with hs | hs
    · rw [hs]
      exact h.start
    · exact .inr hs
  telemetry := h.telemetry.trans h'.telemetry

/-- The timer is started. -/
theorem Ticks.started (hs : n'.timer.startUsec = env.now)
    (ht : n'.heartbeatTelemetry = n.heartbeatTelemetry) : Ticks env n n' :=
  ⟨.inr hs, by rw [ht]; exact .refl⟩

theorem Ticks.reset (hs : n'.timer = n.timer)
    (ht : n'.heartbeatTelemetry = n.heartbeatTelemetry.reset) : Ticks env n n' :=
  ⟨.inl (by rw [hs]), .single (.inl ht)⟩

theorem Ticks.recorded (hs : n'.timer = n.timer)
    (ht : n'.heartbeatTelemetry = n.heartbeatTelemetry.recordInterval env.now) : Ticks env n n' :=
  ⟨.inl (by rw [hs]), .single (.inr ht)⟩

theorem setHeartbeatTimer_ticks (env : Env) (n : Node σ) : Ticks env n (n.setHeartbeatTimer env) :=
  .started rfl rfl

theorem setFaultDetectTimer_ticks (env : Env) (n : Node σ) :
    Ticks env n (n.setFaultDetectTimer env) :=
  .started rfl rfl

/-! ### Functions that leave both alone -/

theorem recordOutstanding_clocks (n : Node σ) (req : ProcReq) (logLen : ℤ) :
    SameClocks n (n.recordOutstanding req logLen) := by
  rw [recordOutstanding_eq]
  exact ⟨rfl, rfl⟩

variable [Storage σ]

omit [Storage σ] in
theorem put_clocks (n : Node σ) (s : σ) (event : Option Event) : SameClocks n (n.put s event) :=
  ⟨rfl, rfl⟩

theorem sendHeartbeats_clocks (n : Node σ) : SameClocks n n.sendHeartbeats := by
  rw [sendHeartbeats_eq]
  exact ⟨rfl, rfl⟩

theorem broadcastAppendEntries_clocks (n : Node σ) : SameClocks n n.broadcastAppendEntries := by
  rw [broadcastAppendEntries_eq]
  exact ⟨rfl, rfl⟩

theorem broadcastRequestVote_clocks (n : Node σ) : SameClocks n n.broadcastRequestVote := by
  rw [broadcastRequestVote_eq]
  exact ⟨rfl, rfl⟩

theorem applyToStateMachine_clocks (n : Node σ) : SameClocks n n.applyToStateMachine := by
  rw [applyToStateMachine_eq]
  exact ⟨rfl, rfl⟩

theorem appendLogEntry_clocks (n : Node σ) (entry : LogEntry) :
    SameClocks n (n.appendLogEntry entry) := by
  unfold appendLogEntry
  dsimp only
  split
  · exact .refl n
  · exact ⟨rfl, rfl⟩

theorem storeEntries_clocks (newIdx i : ℕ) (logLen : ℤ) (entries : List LogEntry) (n : Node σ) :
    SameClocks n (storeEntries newIdx i logLen entries n) := by
  induction entries generalizing i logLen n with
  | nil => exact .refl n
  | cons entry entries ih =>
      rw [storeEntries]
      dsimp only
      split
      · split
        · exact (put_clocks _ _ _).trans ((put_clocks _ _ _).trans (ih _ _ _))
        · exact ih _ _ _
      · exact (put_clocks _ _ _).trans (ih _ _ _)

theorem advanceCommit_cases (n : Node σ) (req : AppendEntriesReq) :
    (∃ commit, n.advanceCommit req = ({ n with commitIndex := commit } : Node σ).applyToStateMachine) ∨
      n.advanceCommit req = n := by
  rw [advanceCommit]
  split
  · exact .inl ⟨_, rfl⟩
  · exact .inr rfl

theorem advanceCommit_clocks (n : Node σ) (req : AppendEntriesReq) :
    SameClocks n (n.advanceCommit req) := by
  obtain ⟨commit, h⟩ | h := n.advanceCommit_cases req
  · rw [h]
    have happly := applyToStateMachine_clocks ({ n with commitIndex := commit } : Node σ)
    exact ⟨happly.timer, happly.telemetry⟩
  · rw [h]
    exact .refl n

theorem commitLoop_clocks (curTerm : ℕ) (logLen : ℤ) (n : Node σ) :
    SameClocks n (n.commitLoop curTerm logLen) := by
  unfold commitLoop
  refine foldl_range_induct (motive := fun _ (m : Node σ) => SameClocks n m) _ (.refl n)
    fun k m _ hm => ?_
  unfold tryCommit
  split
  · exact hm
  · split
    · exact ⟨hm.timer, hm.telemetry⟩
    · exact hm

/-! ### Handlers -/

theorem becomeFollower_ticks (env : Env) (n : Node σ) (term leaderId : ℕ) :
    Ticks env n (n.becomeFollower env term leaderId) :=
  ⟨.inr rfl, .single (.inl rfl)⟩

theorem startElection_ticks (env : Env) (n : Node σ) : Ticks env n (n.startElection env) := by
  unfold startElection
  dsimp only
  split
  · exact .refl n
  · refine Ticks.trans ?_ (broadcastRequestVote_clocks _).ticks
    exact .started rfl rfl

theorem becomeCandidate_ticks (env : Env) (n : Node σ) : Ticks env n (n.becomeCandidate env) := by
  rw [becomeCandidate]
  refine Ticks.trans ?_ (startElection_ticks env _)
  exact .reset rfl rfl

theorem becomeLeader_ticks (env : Env) (n : Node σ) : Ticks env n (n.becomeLeader env) := by
  unfold becomeLeader
  dsimp only
  refine Ticks.trans ?_ (sendHeartbeats_clocks _).ticks
  exact ⟨.inr rfl, .single (.inl rfl)⟩

theorem acceptAppendEntries_ticks (env : Env) (n : Node σ) (curTerm : ℕ) (req : AppendEntriesReq) :
    Ticks env n (n.acceptAppendEntries env curTerm req) := by
  unfold acceptAppendEntries
  dsimp only
  generalize hm : setFaultDetectTimer env _ = m
  have hheard : Ticks env n m := by
    rw [← hm]
    refine Ticks.trans ?_ (setFaultDetectTimer_ticks env _)
    split
    · exact .recorded rfl rfl
    · exact .refl n
  split
  · exact hheard
  split
  · exact hheard.trans (SameClocks.ticks ⟨rfl, rfl⟩)
  · have hstore := storeEntries_clocks (u32 (req.prevLogIdx + 1)) 0 m.logLength req.entries m
    have hcommit := hstore.trans (advanceCommit_clocks _ req)
    exact hheard.trans (SameClocks.ticks ⟨hcommit.timer, hcommit.telemetry⟩)

theorem handleAppendEntriesRequest_ticks (env : Env) (n : Node σ) (req : AppendEntriesReq) :
    Ticks env n (n.handleAppendEntriesRequest env req) := by
  unfold handleAppendEntriesRequest
  dsimp only
  split
  · exact .refl n
  split
  · exact SameClocks.ticks ⟨rfl, rfl⟩
  · refine Ticks.trans ?_ (acceptAppendEntries_ticks env _ _ req)
    split
    · exact becomeFollower_ticks env n _ _
    · exact SameClocks.ticks ⟨rfl, rfl⟩

theorem handleAppendEntriesResponse_ticks (env : Env) (n : Node σ) (srcId : ℕ)
    (resp : AppendEntriesRes) : Ticks env n (n.handleAppendEntriesResponse env srcId resp) := by
  unfold handleAppendEntriesResponse
  dsimp only
  split
  · exact becomeFollower_ticks env n _ _
  split
  · exact .refl n
  split
  · refine SameClocks.ticks (SameClocks.trans ?_ (applyToStateMachine_clocks _))
    refine SameClocks.trans ?_ (commitLoop_clocks _ _ _)
    exact ⟨rfl, rfl⟩
  split
  · exact SameClocks.ticks ⟨rfl, rfl⟩
  · exact .refl n

theorem decideVote_ticks (env : Env) (n : Node σ) (curTerm : ℕ) (req : RequestVoteReq) :
    Ticks env n (n.decideVote env curTerm req) := by
  unfold decideVote
  dsimp only
  split
  · exact .refl n
  split
  · exact SameClocks.ticks ⟨rfl, rfl⟩
  · exact .started rfl rfl

theorem handleRequestVoteRequest_ticks (env : Env) (n : Node σ) (srcId : ℕ) (req : RequestVoteReq) :
    Ticks env n (n.handleRequestVoteRequest env srcId req) := by
  unfold handleRequestVoteRequest
  dsimp only
  split
  · exact .refl n
  split
  · exact SameClocks.ticks ⟨rfl, rfl⟩
  split
  · exact (becomeFollower_ticks env n _ _).trans (decideVote_ticks env _ _ req)
  · exact decideVote_ticks env n _ req

theorem handleRequestVoteResponse_ticks (env : Env) (n : Node σ) (srcId : ℕ)
    (resp : RequestVoteRes) : Ticks env n (n.handleRequestVoteResponse env srcId resp) := by
  unfold handleRequestVoteResponse
  dsimp only
  split
  · exact .refl n
  split
  · exact becomeFollower_ticks env n _ _
  split
  · exact .refl n
  split
  · have hcount : Ticks env n { n with votesReceived := n.votesReceived + 1 } :=
      SameClocks.ticks ⟨rfl, rfl⟩
    split
    · exact hcount.trans (becomeLeader_ticks env _)
    · exact hcount
  · exact .refl n

theorem handleProcRequest_ticks (n : Node σ) (req : ProcReq) (srcId : ℕ) :
    Ticks env n (n.handleProcRequest req srcId) := by
  unfold handleProcRequest
  dsimp only
  split
  · exact SameClocks.ticks ⟨rfl, rfl⟩
  · exact ((appendLogEntry_clocks n _).trans ((recordOutstanding_clocks _ _ _).trans
      (broadcastAppendEntries_clocks _))).ticks

theorem raftHandleRpc_ticks (env : Env) (n : Node σ) (pkt : Pkt) :
    Ticks env n (n.raftHandleRpc env pkt) := by
  unfold raftHandleRpc
  cases pkt.rpc with
  | appendEntriesReq req => exact handleAppendEntriesRequest_ticks env n req
  | appendEntriesRes resp => exact handleAppendEntriesResponse_ticks env n pkt.src resp
  | requestVoteReq req => exact handleRequestVoteRequest_ticks env n pkt.src req
  | requestVoteRes resp => exact handleRequestVoteResponse_ticks env n pkt.src resp
  | procReq req => exact handleProcRequest_ticks n req pkt.src
  | procRes resp => exact .refl n

theorem raftHandleTimeout_ticks (env : Env) (n : Node σ) : Ticks env n (n.raftHandleTimeout env) := by
  unfold raftHandleTimeout
  split
  · split
    · exact becomeCandidate_ticks env n
    split
    · exact becomeCandidate_ticks env n
    · exact setFaultDetectTimer_ticks env n
  · exact startElection_ticks env n
  · have hbeat : Ticks env n (n.setHeartbeatTimer env).sendHeartbeats :=
      (setHeartbeatTimer_ticks env n).trans (sendHeartbeats_clocks _).ticks
    dsimp only
    generalize (n.setHeartbeatTimer env).sendHeartbeats = m at hbeat ⊢
    split
    · exact hbeat.trans (SameClocks.ticks ⟨rfl, rfl⟩)
    · exact hbeat.trans (SameClocks.ticks ⟨rfl, rfl⟩)

end Node

end GeoRaft
