import GeoRaft.Node.Accrual

/-!
The consensus node: every function of `raft.c` between a packet or a timeout and
what the node does about it.

A handler runs to its end on the memory of the node and its storage contexts.
What it does to the outside is kept in order in `script`: each storage call with
the context it left, each packet handed to the transport, and a note at the
points the source prints or logs. The memory is thus the one the node has when
the handler is over, and the script is what happens to disk and network
meanwhile, which a crash can cut anywhere.
-/

namespace GeoRaft

open Word

/-- The points of a run that the source prints or logs. -/
inductive Event
  /-- `become_follower` begins. -/
  | becameFollower (term : ℕ)
  /-- `start_election` or a granted request recorded this vote. -/
  | vote (term candidate : ℕ)
  /-- `become_leader` begins. -/
  | becameLeader (term : ℕ)
  /-- A client request was written to the log as this entry. -/
  | accept (idx : ℕ) (entry : LogEntry)
  /-- `handle_append_entries_response` raised the commit index. -/
  | commit (term : ℕ) (idx : ℤ)
  /-- `apply_to_state_machine` read this entry. -/
  | apply (idx : ℤ) (entry : LogEntry)
  /-- A `success = 1` reply goes out while applying this entry. -/
  | reply (idx : ℤ) (entry : LogEntry)
  deriving DecidableEq, Repr

/-- One effect of a handler on what outlives the process. -/
inductive Effect (σ : Type)
  | store (store : σ) (event : Option Event)
  | send (pkt : Pkt)
  | note (event : Event)
  | exit
  deriving DecidableEq, Repr

structure OutstandingReq where
  clientId : ℕ
  cmdSeqno : ℕ
  logIdx : ℕ
  active : Bool
  deriving DecidableEq, Repr

def maxOutstandingRequests : ℕ := 128

/-- `NO_LEADER`, which is `UINT32_MAX`. -/
def noLeader : ℕ := 4294967295

/-- `raft_node_t`. The contexts of `log` and `hard_state` are together `store`. -/
structure Node (σ : Type) where
  config : Config
  role : Role
  heartbeatCount : ℤ
  store : σ
  commitIndex : ℤ
  lastApplied : ℤ
  leaderId : ℕ
  heartbeatTelemetry : HeartbeatTelemetry
  votesReceived : ℕ
  nextIndex : List ℕ
  matchIndex : List ℤ
  outstandingReqs : List OutstandingReq
  timer : RaftTimer
  script : List (Effect σ)

/-- `raft_create`. The two index arrays are allocated and not filled; only a
leader reads them, and `become_leader` fills them. -/
def raftCreate {σ : Type} (config : Config) (store : σ) : Node σ where
  config := config
  role := .follower
  heartbeatCount := 0
  store := store
  commitIndex := -1
  lastApplied := -1
  leaderId := noLeader
  heartbeatTelemetry := .init config.accrualThreshold config.accrualWindowSize config.accrualRampSize
  votesReceived := 0
  nextIndex := List.replicate config.numNodes 0
  matchIndex := List.replicate config.numNodes 0
  outstandingReqs := List.replicate maxOutstandingRequests ⟨0, 0, 0, false⟩
  timer := ⟨0, 0⟩
  script := []

namespace Node

variable {σ : Type} [Storage σ]

/-! ### Calls to storage and transport -/

def get (node : Node σ) (f : PersistentField) : ℤ := Storage.get f node.store

/-- Carry a storage call out: its new context, on record in the script. -/
def put (node : Node σ) (s : σ) (event : Option Event := none) : Node σ :=
  { node with store := s, script := node.script ++ [.store s event] }

omit [Storage σ] in
@[simp] theorem put_config (node : Node σ) (s : σ) (event : Option Event) :
    (node.put s event).config = node.config := rfl

omit [Storage σ] in
@[simp] theorem put_store (node : Node σ) (s : σ) (event : Option Event) :
    (node.put s event).store = s := rfl

omit [Storage σ] in
@[simp] theorem put_script (node : Node σ) (s : σ) (event : Option Event) :
    (node.put s event).script = node.script ++ [.store s event] := rfl

def set (node : Node σ) (f : PersistentField) (v : ℕ) (event : Option Event := none) : Node σ :=
  node.put (Storage.set f v node.store).2 event

def logLength (node : Node σ) : ℤ := Storage.length node.store

def logRead (node : Node σ) (idx : ℤ) : Option LogEntry := Storage.read idx node.store

def logWrite (node : Node σ) (idx : ℤ) (entry : LogEntry) (event : Option Event := none) :
    Node σ :=
  node.put (Storage.write idx entry node.store).2 event

def logRemoveLastN (node : Node σ) (n : ℤ) : Node σ :=
  node.put (Storage.removeLastN n node.store).2

def send (node : Node σ) (dst : ℕ) (rpc : Rpc) : Node σ :=
  { node with script := node.script ++ [.send ⟨dst, node.config.id, rpc⟩] }

def note (node : Node σ) (event : Event) : Node σ :=
  { node with script := node.script ++ [.note event] }

theorem set_config (node : Node σ) (f : PersistentField) (v : ℕ) (event : Option Event) :
    (node.set f v event).config = node.config := rfl

theorem set_store (node : Node σ) (f : PersistentField) (v : ℕ) (event : Option Event) :
    (node.set f v event).store = (Storage.set f v node.store).2 := rfl

theorem get_eq (node : Node σ) (f : PersistentField) : node.get f = Storage.get f node.store := rfl

theorem get_currentTerm (n : Node Disk) : n.get .currentTerm = i32 n.store.currentTerm := by
  rw [get_eq, Disk.get_currentTerm]

theorem get_votedFor (n : Node Disk) : n.get .votedFor = i32 n.store.votedFor := by
  rw [get_eq, Disk.get_votedFor]

/-! ### Utility helpers -/

def raftGetLogTerm (node : Node σ) (logIdx : ℤ) : ℕ :=
  if logIdx < 0 then 0
  else if logIdx ≥ node.logLength then 0
  else
    match node.logRead logIdx with
    | none => 0
    | some ent => ent.term

def logIsUpToDate (node : Node σ) (reqLastLogIdx reqLastLogTerm : ℕ) : Bool :=
  let logLen := node.logLength
  let myLastTerm := node.raftGetLogTerm (i32 (logLen - 1))
  if myLastTerm < reqLastLogTerm then true
  else if myLastTerm = reqLastLogTerm then decide (u32 (logLen - 1) ≤ reqLastLogIdx)
  else false

def appendLogEntry (node : Node σ) (entry : LogEntry) : Node σ :=
  let logLen := node.logLength
  if logLen < 0 then node
  else node.logWrite logLen entry (some (.accept logLen.toNat entry))

/-- The loop over all other nodes that every broadcast is. -/
def forOthers (node : Node σ) (body : Node σ → ℕ → Node σ) : Node σ :=
  (List.range node.config.numNodes).foldl
    (fun n i => if i = node.config.id then n else body n i) node

/-- What holds before a loop and is kept by each of its turns. -/
theorem foldl_range_induct {β : Type} {f : β → ℕ → β} {motive : ℕ → β → Prop} {b : β} (n : ℕ)
    (h0 : motive 0 b) (hstep : ∀ k b, k < n → motive k b → motive (k + 1) (f b k)) :
    motive n ((List.range n).foldl f b) := by
  induction n with
  | zero => exact h0
  | succ n ih =>
      rw [List.range_succ, List.foldl_append]
      exact hstep n _ (Nat.lt_succ_self n) (ih fun k b hk => hstep k b (by omega))

omit [Storage σ] in
theorem forOthers_induct {body : Node σ → ℕ → Node σ} {motive : ℕ → Node σ → Prop} (node : Node σ)
    (h0 : motive 0 node)
    (hstep : ∀ k m, k < node.config.numNodes → motive k m →
      motive (k + 1) (if k = node.config.id then m else body m k)) :
    motive node.config.numNodes (node.forOthers body) :=
  foldl_range_induct _ h0 hstep

def broadcastRequestVote (node : Node σ) : Node σ :=
  let logLen := node.logLength
  if logLen < 0 then node
  else
    let req : RequestVoteReq := {
      term := u32 (node.get .currentTerm)
      candidateId := node.config.id
      lastLogIdx := u32 (logLen - 1)
      lastLogTerm := node.raftGetLogTerm (i32 (logLen - 1)) }
    node.forOthers fun n i => n.send i (.requestVoteReq req)

/-- The fields of a request to `i` that do not depend on what it carries. -/
def appendEntriesReqTo (node : Node σ) (term : ℕ) (i : ℕ) (entries : List LogEntry) :
    AppendEntriesReq :=
  let next := node.nextIndex.getD i 0
  { term := term
    leaderId := node.config.id
    leaderCommit := node.commitIndex
    prevLogIdx := u32 ((next : ℤ) - 1)
    prevLogTerm := node.raftGetLogTerm (i32 (i32 next - 1))
    entries := entries }

/-- How many entries `broadcast_append_entries` puts into the request to `i`. -/
def nToSend (node : Node σ) (logLen : ℤ) (i : ℕ) : ℤ :=
  let n := i32 (logLen - i32 (node.nextIndex.getD i 0))
  let n := if n > maxAppendEntriesN then (maxAppendEntriesN : ℤ) else n
  if n < 0 then 0 else n

/-- The entries from `next_index[i]` on. The array of the request starts zeroed,
so an entry that cannot be read is sent as zeroes. -/
def entriesFor (node : Node σ) (logLen : ℤ) (i : ℕ) : List LogEntry :=
  (List.range (node.nToSend logLen i).toNat).map fun (j : ℕ) =>
    (node.logRead (i32 (i32 (node.nextIndex.getD i 0) + j))).getD ⟨0, 0, 0, 0⟩

def broadcastAppendEntries (node : Node σ) : Node σ :=
  if node.role ≠ .leader then node
  else
    let logLen := node.logLength
    let curTerm := u32 (node.get .currentTerm)
    node.forOthers fun n i =>
      n.send i (.appendEntriesReq (n.appendEntriesReqTo curTerm i (n.entriesFor logLen i)))

def sendHeartbeats (node : Node σ) : Node σ :=
  if node.role ≠ .leader then node
  else
    let curTerm := node.get .currentTerm
    node.forOthers fun n i =>
      n.send i (.appendEntriesReq (n.appendEntriesReqTo (u32 curTerm) i []))

/-! ### Timers -/

def setFaultDetectTimer (env : Env) (node : Node σ) : Node σ :=
  let timer := node.timer
  let timer :=
    if node.config.timeoutScheme = .timeout
        ∨ node.heartbeatTelemetry.numIntervals < node.heartbeatTelemetry.rampSize then
      { timer with
        durationUsec := randomTimeoutUsec env
          (u32 (node.config.timeoutLbMs * 1000)) (u32 (node.config.timeoutUbMs * 1000)) }
    else { timer with durationUsec := accrualIntervalMs * 1000 }
  { node with timer := timerReset env timer }

def setElectionTimer (env : Env) (node : Node σ) : Node σ :=
  { node with
    timer := timerReset env { node.timer with
      durationUsec := randomTimeoutUsec env (heartbeatIntervalUsec * 3) (heartbeatIntervalUsec * 5) } }

omit [Storage σ] in
theorem setElectionTimer_config (env : Env) (node : Node σ) :
    (node.setElectionTimer env).config = node.config := rfl

omit [Storage σ] in
theorem setElectionTimer_store (env : Env) (node : Node σ) :
    (node.setElectionTimer env).store = node.store := rfl

def setHeartbeatTimer (env : Env) (node : Node σ) : Node σ :=
  { node with timer := timerReset env { node.timer with durationUsec := heartbeatIntervalUsec } }

/-! ### Elections -/

def startElection (env : Env) (node : Node σ) : Node σ :=
  let curTermOpt := node.get .currentTerm
  if curTermOpt < 0 then node
  else
    let curTerm := u32 curTermOpt
    let node := node.set .currentTerm (u32 (curTerm + 1))
    let node := node.set .votedFor node.config.id (some (.vote (u32 (curTerm + 1)) node.config.id))
    let node := { node with votesReceived := 1 }
    (node.setElectionTimer env).broadcastRequestVote

def becomeFollower (env : Env) (node : Node σ) (term leaderId : ℕ) : Node σ :=
  let node := node.note (.becameFollower term)
  let node := node.set .currentTerm term
  let node := { node with role := .follower, leaderId := leaderId }
  let node := node.set .votedFor pfNoVote
  let node := { node with votesReceived := 0, heartbeatTelemetry := node.heartbeatTelemetry.reset }
  node.setFaultDetectTimer env

theorem broadcastRequestVote_store (node : Node σ) :
    node.broadcastRequestVote.store = node.store := by
  unfold broadcastRequestVote
  dsimp only
  split
  · rfl
  · refine forOthers_induct (motive := fun _ m => m.store = node.store) node rfl fun k m _ hm => ?_
    split <;> exact hm

/-- `start_election` in a term that storage can return. -/
theorem startElection_eq (env : Env) (n : Node Disk) (h : n.store.currentTerm < 2 ^ 31) :
    n.startElection env =
      (({ (n.set .currentTerm (n.store.currentTerm + 1)).set .votedFor n.config.id
          (some (.vote (n.store.currentTerm + 1) n.config.id)) with
        votesReceived := 1 } : Node Disk).setElectionTimer env).broadcastRequestVote := by
  unfold startElection
  rw [get_currentTerm, i32_of_nat (by omega), if_neg (by omega), u32_of_nat (by omega)]
  have hsucc : u32 ((n.store.currentTerm : ℤ) + 1) = n.store.currentTerm + 1 := by
    exact_mod_cast u32_of_nat (n := n.store.currentTerm + 1) (by omega)
  simp only [hsucc]
  rfl

theorem startElection_currentTerm (env : Env) (n : Node Disk) (h : n.store.currentTerm < 2 ^ 31) :
    (n.startElection env).store.currentTerm = n.store.currentTerm + 1 := by
  rw [startElection_eq env n h, broadcastRequestVote_store, setElectionTimer_store]
  rw [set_store, Disk.set_votedFor, set_store, Disk.set_currentTerm]
  exact u32_of_nat (by omega)

theorem becomeFollower_store (env : Env) (n : Node Disk) {term : ℕ} (h : term < 2 ^ 31)
    (leaderId : ℕ) : (n.becomeFollower env term leaderId).store =
      { currentTerm := term, votedFor := pfNoVote, log := n.store.log } := by
  show (Storage.set .votedFor pfNoVote (Storage.set .currentTerm term n.store).2).2 = _
  rw [Disk.set_currentTerm, Disk.set_votedFor, u32_of_nat (by omega), u32_of_nat (by decide)]

def becomeCandidate (env : Env) (node : Node σ) : Node σ :=
  let node := { node with
    role := .candidate
    leaderId := noLeader
    votesReceived := 0
    heartbeatTelemetry := node.heartbeatTelemetry.reset }
  node.startElection env

def becomeLeader (env : Env) (node : Node σ) : Node σ :=
  let curTerm := u32 (node.get .currentTerm)
  let node := node.note (.becameLeader curTerm)
  let logLen := node.logLength
  let node := { node with
    role := .leader
    leaderId := noLeader
    heartbeatCount := 0
    heartbeatTelemetry := node.heartbeatTelemetry.reset
    nextIndex := List.replicate node.config.numNodes (u32 logLen)
    matchIndex := List.replicate node.config.numNodes (-1) }
  (node.setHeartbeatTimer env).sendHeartbeats

/-! ### Applying entries -/

/-- The reply to the first outstanding request that matches the entry. -/
def replyOutstanding (node : Node σ) (idx : ℤ) (entry : LogEntry) : Node σ :=
  match node.outstandingReqs.findIdx? fun r =>
      r.active && r.clientId == entry.clientId && r.cmdSeqno == entry.cmdSeqno with
  | none => node
  | some i =>
    let resp : ProcRes := {
      clientId := entry.clientId
      cmdSeqno := entry.cmdSeqno
      success := 1
      leaderHint := node.config.id
      term := u32 (node.get .currentTerm) }
    let node := (node.note (.reply idx entry)).send entry.clientId (.procRes resp)
    { node with
      outstandingReqs := node.outstandingReqs.modify i fun r => { r with active := false } }

/-- The body of the loop of `apply_to_state_machine`. -/
def applyNext (node : Node σ) : Node σ :=
  let node := { node with lastApplied := node.lastApplied + 1 }
  match node.logRead node.lastApplied with
  | none => node
  | some entry =>
    let node := node.note (.apply node.lastApplied entry)
    if node.role = .leader then node.replyOutstanding node.lastApplied entry else node

def applyLoop : ℕ → Node σ → Node σ
  | 0, node => node
  | fuel + 1, node =>
    if node.lastApplied < node.commitIndex then applyLoop fuel node.applyNext else node

/-- Each turn of the loop raises `last_applied` by one and leaves `commit_index`
alone, so the distance between them bounds the turns. -/
def applyToStateMachine (node : Node σ) : Node σ :=
  applyLoop (node.commitIndex - node.lastApplied).toNat node

/-! ### Handlers -/

def sendAppendEntriesResponse (node : Node σ) (dst term newMatch success : ℕ) : Node σ :=
  node.send dst (.appendEntriesRes ⟨term, newMatch, success⟩)

/-- The loop of `handle_append_entries_request`, at its turn `i`. -/
def storeEntries (newIdx : ℕ) : ℕ → ℤ → List LogEntry → Node σ → Node σ
  | _, _, [], node => node
  | i, logLen, entry :: entries, node =>
    let logIdx := u32 (newIdx + i)
    if logIdx < u32 logLen then
      if node.raftGetLogTerm (i32 logIdx) ≠ entry.term then
        let node := node.logRemoveLastN (logLen - i32 logIdx)
        let node := node.logWrite (i32 logIdx) entry
        storeEntries newIdx (i + 1) (i32 logIdx + 1) entries node
      else storeEntries newIdx (i + 1) logLen entries node
    else
      let node := node.logWrite (i32 logIdx) entry
      storeEntries newIdx (i + 1) (logLen + 1) entries node

/-- The consistency check on the entry before the new ones. -/
def prevMatches (node : Node σ) (logLen : ℤ) (req : AppendEntriesReq) : Prop :=
  ¬(i32 req.prevLogIdx ≥ logLen ∨ node.raftGetLogTerm (i32 req.prevLogIdx) ≠ req.prevLogTerm)

instance (node : Node σ) (logLen : ℤ) (req : AppendEntriesReq) :
    Decidable (node.prevMatches logLen req) :=
  inferInstanceAs (Decidable (¬_))

/-- The follower's commit index after a request it accepted. -/
def advanceCommit (node : Node σ) (req : AppendEntriesReq) : Node σ :=
  if req.leaderCommit > node.commitIndex then
    let lastNewEntryIdx := i32 (u32 (req.prevLogIdx + req.nEntries))
    let node := { node with
      commitIndex :=
        if req.leaderCommit < lastNewEntryIdx then req.leaderCommit else lastNewEntryIdx }
    node.applyToStateMachine
  else node

/-- From the point where the request is known not to be stale. -/
def acceptAppendEntries (env : Env) (node : Node σ) (curTerm : ℕ) (req : AppendEntriesReq) :
    Node σ :=
  let node :=
    if node.role = .follower ∧ req.nEntries = 0 then
      { node with heartbeatTelemetry := node.heartbeatTelemetry.recordInterval env.now }
    else node
  let node := node.setFaultDetectTimer env
  let logLen := node.logLength
  if logLen < 0 then node
  else if ¬node.prevMatches logLen req then
    node.sendAppendEntriesResponse req.leaderId curTerm 0 0
  else
    let newIdx := u32 (req.prevLogIdx + 1)
    let node := storeEntries newIdx 0 logLen req.entries node
    let node := node.advanceCommit req
    node.sendAppendEntriesResponse req.leaderId curTerm (u32 (req.prevLogIdx + req.nEntries)) 1

def handleAppendEntriesRequest (env : Env) (node : Node σ) (req : AppendEntriesReq) : Node σ :=
  let curTermOpt := node.get .currentTerm
  if curTermOpt < 0 then node
  else
    let curTerm := u32 curTermOpt
    if req.term < curTerm then node.sendAppendEntriesResponse req.leaderId curTerm 0 0
    else
      let node :=
        if req.term > curTerm ∨ req.term = curTerm ∧ node.role = .candidate then
          node.becomeFollower env req.term req.leaderId
        else { node with leaderId := req.leaderId }
      node.acceptAppendEntries env curTerm req

/-- How many nodes hold the entry `n`, the leader counted once. -/
def replicaCount (node : Node σ) (n : ℤ) : ℕ :=
  (List.range node.config.numNodes).foldl
    (fun count i =>
      if i ≠ node.config.id ∧ node.matchIndex.getD i (-1) ≥ n then count + 1 else count) 1

/-- One turn of the loop that looks for a new commit index. -/
def tryCommit (curTerm : ℕ) (node : Node σ) (n : ℤ) : Node σ :=
  if node.raftGetLogTerm n ≠ curTerm then node
  else if node.replicaCount n > node.config.numNodes / 2 then
    { node.note (.commit curTerm n) with commitIndex := n }
  else node

/-- The loop from `commit_index + 1` up to the length of the log. -/
def commitLoop (curTerm : ℕ) (logLen : ℤ) (node : Node σ) : Node σ :=
  let first := node.commitIndex + 1
  (List.range (logLen - first).toNat).foldl
    (fun nd (k : ℕ) => nd.tryCommit curTerm (first + k)) node

def handleAppendEntriesResponse (env : Env) (node : Node σ) (srcId : ℕ) (resp : AppendEntriesRes) :
    Node σ :=
  let curTerm := u32 (node.get .currentTerm)
  if resp.term > curTerm then node.becomeFollower env resp.term srcId
  else if node.role ≠ .leader ∨ resp.term < curTerm then node
  else if resp.success ≠ 0 then
    let logLen := node.logLength
    let node := { node with
      matchIndex := node.matchIndex.set srcId (i32 resp.newMatchIndex)
      nextIndex := node.nextIndex.set srcId (u32 logLen) }
    (node.commitLoop curTerm logLen).applyToStateMachine
  else if node.nextIndex.getD srcId 0 > 0 then
    { node with nextIndex := node.nextIndex.modify srcId (· - 1) }
  else node

/-- From the point where the request is known not to be stale. -/
def decideVote (env : Env) (node : Node σ) (curTerm : ℕ) (req : RequestVoteReq) : Node σ :=
  let votedForOpt := node.get .votedFor
  if votedForOpt < 0 then node
  else
    let votedFor := u32 votedForOpt
    let hasVoted := votedForOpt ≠ pfNoVote
    if hasVoted ∧ votedFor ≠ req.candidateId
        ∨ ¬node.logIsUpToDate req.lastLogIdx req.lastLogTerm then
      node.send req.candidateId (.requestVoteRes ⟨curTerm, 0⟩)
    else
      let node := node.set .votedFor req.candidateId (some (.vote curTerm req.candidateId))
      (node.setElectionTimer env).send req.candidateId (.requestVoteRes ⟨curTerm, 1⟩)

def handleRequestVoteRequest (env : Env) (node : Node σ) (srcId : ℕ) (req : RequestVoteReq) :
    Node σ :=
  let curTermOpt := node.get .currentTerm
  if curTermOpt < 0 then node
  else
    let curTerm := u32 curTermOpt
    if req.term < curTerm then node.send req.candidateId (.requestVoteRes ⟨curTerm, 0⟩)
    else if req.term > curTerm then
      (node.becomeFollower env req.term srcId).decideVote env req.term req
    else node.decideVote env curTerm req

def handleRequestVoteResponse (env : Env) (node : Node σ) (srcId : ℕ) (resp : RequestVoteRes) :
    Node σ :=
  if node.role ≠ .candidate then node
  else
    let curTerm := u32 (node.get .currentTerm)
    if resp.term > curTerm then node.becomeFollower env resp.term srcId
    else if resp.term < curTerm then node
    else if resp.voteGranted ≠ 0 then
      let node := { node with votesReceived := node.votesReceived + 1 }
      if node.votesReceived > node.config.numNodes / 2 then node.becomeLeader env else node
    else node

/-- The first slot that is free takes the request, if there is one. -/
def recordOutstanding (node : Node σ) (req : ProcReq) (logLen : ℤ) : Node σ :=
  match node.outstandingReqs.findIdx? fun r => !r.active with
  | none => node
  | some i =>
    { node with
      outstandingReqs := node.outstandingReqs.set i ⟨req.clientId, req.cmdSeqno, u32 logLen, true⟩ }

def handleProcRequest (node : Node σ) (req : ProcReq) (srcId : ℕ) : Node σ :=
  if node.role ≠ .leader then
    node.send srcId (.procRes {
      clientId := req.clientId
      cmdSeqno := req.cmdSeqno
      success := 0
      leaderHint := node.leaderId
      term := u32 (node.get .currentTerm) })
  else
    let logLen := node.logLength
    let newEntry : LogEntry := {
      clientId := req.clientId
      cmdSeqno := req.cmdSeqno
      cmd := req.cmd
      term := u32 (node.get .currentTerm) }
    ((node.appendLogEntry newEntry).recordOutstanding req logLen).broadcastAppendEntries

def handleProcResponse (node : Node σ) (_resp : ProcRes) : Node σ := node

/-- `raft_handle_rpc`, once the payload is unpacked. -/
def raftHandleRpc (env : Env) (node : Node σ) (pkt : Pkt) : Node σ :=
  match pkt.rpc with
  | .appendEntriesReq req => node.handleAppendEntriesRequest env req
  | .appendEntriesRes resp => node.handleAppendEntriesResponse env pkt.src resp
  | .requestVoteReq req => node.handleRequestVoteRequest env pkt.src req
  | .requestVoteRes resp => node.handleRequestVoteResponse env pkt.src resp
  | .procReq req => node.handleProcRequest req pkt.src
  | .procRes resp => node.handleProcResponse resp

/-- A response of the leader's own term from an id that is no member's. The code indexes
both tables of the leader with the id; here nothing happens. -/
def StrangeResponse (node : Node σ) (srcId : ℕ) (rpc : Rpc) : Prop :=
  node.role = .leader ∧ node.config.numNodes ≤ srcId ∧
    ∃ res, rpc = .appendEntriesRes res ∧ res.term = u32 (node.get .currentTerm)

theorem strangeResponse_iff (node : Node σ) (srcId : ℕ) (res : AppendEntriesRes) :
    node.StrangeResponse srcId (.appendEntriesRes res) ↔ node.role = .leader ∧
      node.config.numNodes ≤ srcId ∧ res.term = u32 (node.get .currentTerm) := by
  simp [StrangeResponse]

instance (node : Node σ) (srcId : ℕ) : ∀ rpc, Decidable (node.StrangeResponse srcId rpc)
  | .appendEntriesRes res => decidable_of_iff' _ (node.strangeResponse_iff srcId res)
  | .appendEntriesReq _ | .requestVoteReq _ | .requestVoteRes _ | .procReq _ | .procRes _ =>
    isFalse fun ⟨_, _, _, h, _⟩ => nomatch h

def raftHandleTimeout (env : Env) (node : Node σ) : Node σ :=
  match node.role with
  | .follower =>
    if node.config.timeoutScheme = .timeout
        ∨ node.heartbeatTelemetry.numIntervals < node.heartbeatTelemetry.rampSize then
      node.becomeCandidate env
    else if node.heartbeatTelemetry.checkLeaderFailure env then node.becomeCandidate env
    else node.setFaultDetectTimer env
  | .candidate => node.startElection env
  | .leader =>
    let node := (node.setHeartbeatTimer env).sendHeartbeats
    let node := { node with heartbeatCount := node.heartbeatCount + 1 }
    if node.config.crashAfterH ≥ 0 ∧ node.heartbeatCount ≥ node.config.crashAfterH then
      { node with script := node.script ++ [.exit] }
    else node

end Node

end GeoRaft
