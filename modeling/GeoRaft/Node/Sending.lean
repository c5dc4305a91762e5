import GeoRaft.Node.Lives
import GeoRaft.Wire.Bounds

/-!
What a node sends fits its packets.

Every field of a message is read from the node, from its storage or from the message that is
being answered. As long as these hold what the types of C hold, so does every message that is
handed to the transport, and no request carries more entries than its array has room for.
-/

namespace GeoRaft

open Word

/-- A packet whose fields are of their types. -/
structure Pkt.Fits (pkt : Pkt) : Prop where
  dst : pkt.dst < 2 ^ 32
  src : pkt.src < 2 ^ 32
  rpc : pkt.rpc.Fits
  nEntries : pkt.rpc.nEntries ≤ maxAppendEntriesN

structure Disk.Fits (d : Disk) : Prop where
  currentTerm : d.currentTerm < 2 ^ 32
  votedFor : d.votedFor < 2 ^ 32
  log : ∀ entry ∈ d.log, entry.Fits

def Effect.Fits : Effect Disk → Prop
  | .store d _ => d.Fits
  | .send pkt => pkt.Fits
  | .note _ | .exit => True

/-- What a request holds where an entry could not be read. -/
theorem LogEntry.fits_zero : LogEntry.Fits ⟨0, 0, 0, 0⟩ := ⟨by decide, by decide, by decide, by decide⟩

theorem Disk.fits_init : Disk.init.Fits := ⟨by decide, by decide, by simp [Disk.init]⟩

theorem Disk.Fits.set {d : Disk} (h : d.Fits) (f : PersistentField) (v : ℕ) :
    (Storage.set f v d).2.Fits := by
  cases f with
  | currentTerm => exact ⟨u32_lt _, h.votedFor, h.log⟩
  | votedFor => exact ⟨h.currentTerm, u32_lt _, h.log⟩

theorem Disk.Fits.write {d : Disk} (h : d.Fits) (idx : ℤ) {entry : LogEntry} (hentry : entry.Fits) :
    (Storage.write idx entry d).2.Fits := by
  rw [Disk.storage_write, Disk.write]
  split
  · exact h
  split
  · refine ⟨h.currentTerm, h.votedFor, fun e he => ?_⟩
    rcases List.mem_append.mp he with he | he
    · exact h.log e he
    · rw [List.mem_singleton.mp he]
      exact hentry
  · refine ⟨h.currentTerm, h.votedFor, fun e he => ?_⟩
    rcases List.mem_or_eq_of_mem_set he with he | rfl
    · exact h.log e he
    · exact hentry

theorem Disk.Fits.removeLastN {d : Disk} (h : d.Fits) (n : ℤ) : (Storage.removeLastN n d).2.Fits := by
  rw [Disk.storage_removeLastN, Disk.removeLastN]
  split
  · exact h
  · exact ⟨h.currentTerm, h.votedFor, fun e he => h.log e (List.mem_of_mem_take he)⟩

theorem Disk.Fits.read {d : Disk} (h : d.Fits) {idx : ℤ} {entry : LogEntry}
    (hread : Storage.read idx d = some entry) : entry.Fits := by
  rw [Disk.storage_read, Disk.read] at hread
  split at hread
  · cases hread
  · exact h.log entry (List.mem_of_getElem? hread)

/-- However far a script is carried out, the disk fits. -/
theorem Disk.Fits.storeAfter {d : Disk} (h : d.Fits) {es : List (Effect Disk)}
    (hes : ∀ e ∈ es, e.Fits) : (storeAfter d es).Fits := by
  induction es generalizing d with
  | nil => exact h
  | cons e es ih =>
      have hrest : ∀ e ∈ es, e.Fits := fun e he => hes e (List.mem_cons_of_mem _ he)
      cases e with
      | store d' event => exact ih (hes _ List.mem_cons_self) hrest
      | send pkt => exact ih h hrest
      | note event => exact ih h hrest
      | exit => exact ih h hrest

namespace Node

/-- A node whose fields are of their types, with nothing to do that is not. -/
structure Fits (n : Node Disk) : Prop where
  id : n.config.id < 2 ^ 32
  numNodes : n.config.numNodes ≤ 2 ^ 32
  leaderId : n.leaderId < 2 ^ 32
  le_commit : -2 ^ 31 ≤ n.commitIndex
  commit_lt : n.commitIndex < 2 ^ 31
  store : n.store.Fits
  script : ∀ e ∈ n.script, e.Fits

variable {n n' : Node Disk}

theorem fits_raftCreate {config : Config} (hid : config.id < 2 ^ 32)
    (hn : config.numNodes ≤ 2 ^ 32) {d : Disk} (hd : d.Fits) : (raftCreate config d).Fits where
  id := hid
  numNodes := hn
  leaderId := by
    show noLeader < 2 ^ 32
    decide
  le_commit := by
    show (-2 ^ 31 : ℤ) ≤ -1
    decide
  commit_lt := by
    show (-1 : ℤ) < 2 ^ 31
    decide
  store := hd
  script := by
    intro e he
    cases he

/-- A change of fields that are never sent. -/
theorem Fits.mem (h : n.Fits) (hc : n'.config = n.config) (hl : n'.leaderId = n.leaderId)
    (hi : n'.commitIndex = n.commitIndex) (hs : n'.store = n.store) (hes : n'.script = n.script) :
    n'.Fits where
  id := by rw [hc]; exact h.id
  numNodes := by rw [hc]; exact h.numNodes
  leaderId := by rw [hl]; exact h.leaderId
  le_commit := by rw [hi]; exact h.le_commit
  commit_lt := by rw [hi]; exact h.commit_lt
  store := by rw [hs]; exact h.store
  script := by rw [hes]; exact h.script

theorem Fits.knows (h : n.Fits) {leaderId : ℕ} (hl : leaderId < 2 ^ 32) (role : Role) :
    Fits { n with role := role, leaderId := leaderId } where
  id := h.id
  numNodes := h.numNodes
  leaderId := hl
  le_commit := h.le_commit
  commit_lt := h.commit_lt
  store := h.store
  script := h.script

theorem Fits.commits (h : n.Fits) {k : ℤ} (hlo : -2 ^ 31 ≤ k) (hhi : k < 2 ^ 31) :
    Fits { n with commitIndex := k } where
  id := h.id
  numNodes := h.numNodes
  leaderId := h.leaderId
  le_commit := hlo
  commit_lt := hhi
  store := h.store
  script := h.script

theorem Fits.append (h : n.Fits) {e : Effect Disk} (he : e.Fits) :
    ∀ e' ∈ n.script ++ [e], e'.Fits := by
  intro e' he'
  rcases List.mem_append.mp he' with he' | he'
  · exact h.script e' he'
  · rw [List.mem_singleton.mp he']
    exact he

theorem Fits.put (h : n.Fits) {d : Disk} (hd : d.Fits) (event : Option Event) :
    (n.put d event).Fits where
  id := h.id
  numNodes := h.numNodes
  leaderId := h.leaderId
  le_commit := h.le_commit
  commit_lt := h.commit_lt
  store := hd
  script := h.append (e := .store d event) hd

theorem Fits.note (h : n.Fits) (event : Event) : (n.note event).Fits where
  id := h.id
  numNodes := h.numNodes
  leaderId := h.leaderId
  le_commit := h.le_commit
  commit_lt := h.commit_lt
  store := h.store
  script := h.append (e := .note event) trivial

theorem Fits.send (h : n.Fits) {dst : ℕ} (hdst : dst < 2 ^ 32) {rpc : Rpc} (hrpc : rpc.Fits)
    (hmax : rpc.nEntries ≤ maxAppendEntriesN) : (n.send dst rpc).Fits where
  id := h.id
  numNodes := h.numNodes
  leaderId := h.leaderId
  le_commit := h.le_commit
  commit_lt := h.commit_lt
  store := h.store
  script := h.append (e := .send ⟨dst, n.config.id, rpc⟩) ⟨hdst, h.id, hrpc, hmax⟩

theorem Fits.exit (h : n.Fits) : Fits { n with script := n.script ++ [.exit] } where
  id := h.id
  numNodes := h.numNodes
  leaderId := h.leaderId
  le_commit := h.le_commit
  commit_lt := h.commit_lt
  store := h.store
  script := h.append (e := .exit) trivial

theorem Fits.settled (h : n.Fits) : Fits { n with script := [] } where
  id := h.id
  numNodes := h.numNodes
  leaderId := h.leaderId
  le_commit := h.le_commit
  commit_lt := h.commit_lt
  store := h.store
  script := by
    intro e he
    cases he

theorem Fits.set (h : n.Fits) (f : PersistentField) (v : ℕ) (event : Option Event) :
    (n.set f v event).Fits := h.put (h.store.set f v) event

theorem Fits.logWrite (h : n.Fits) (idx : ℤ) {entry : LogEntry} (hentry : entry.Fits)
    (event : Option Event) : (n.logWrite idx entry event).Fits := h.put (h.store.write idx hentry) event

theorem Fits.logRemoveLastN (h : n.Fits) (k : ℤ) : (n.logRemoveLastN k).Fits :=
  h.put (h.store.removeLastN k) none

theorem Fits.raftGetLogTerm (h : n.Fits) (idx : ℤ) : n.raftGetLogTerm idx < 2 ^ 32 := by
  unfold Node.raftGetLogTerm
  split
  · decide
  split
  · decide
  · cases hread : n.logRead idx with
    | none => decide
    | some entry => exact (h.store.read hread).1

theorem Fits.appendLogEntry (h : n.Fits) {entry : LogEntry} (hentry : entry.Fits) :
    (n.appendLogEntry entry).Fits := by
  unfold Node.appendLogEntry
  dsimp only
  split
  · exact h
  · exact h.logWrite _ hentry _

/-! ### Broadcasts and timers -/

/-- A loop over all other nodes, which are counted by a `uint32_t`. -/
theorem Fits.forOthers (h : n.Fits) {body : Node Disk → ℕ → Node Disk}
    (hbody : ∀ {m : Node Disk}, m.Fits → ∀ i < 2 ^ 32, (body m i).Fits) : (n.forOthers body).Fits := by
  refine forOthers_induct (motive := fun _ m => m.Fits) n h fun k m hk hm => ?_
  split
  · exact hm
  · exact hbody hm k (lt_of_lt_of_le hk h.numNodes)

theorem Fits.broadcastRequestVote (h : n.Fits) : n.broadcastRequestVote.Fits := by
  unfold Node.broadcastRequestVote
  dsimp only
  split
  · exact h
  · refine h.forOthers fun hm i hi => hm.send hi ⟨u32_lt _, h.id, u32_lt _, ?_⟩ (Nat.zero_le _)
    exact h.raftGetLogTerm _

theorem Fits.entryAt (h : n.Fits) (idx : ℤ) : ((n.logRead idx).getD ⟨0, 0, 0, 0⟩).Fits := by
  cases hread : n.logRead idx with
  | none =>
      rw [Option.getD_none]
      exact LogEntry.fits_zero
  | some entry =>
      rw [Option.getD_some]
      exact h.store.read hread

/-- At most as many entries as the array holds, each of them from the log. -/
theorem Fits.entriesFor (h : n.Fits) (logLen : ℤ) (i : ℕ) :
    (n.entriesFor logLen i).length ≤ maxAppendEntriesN ∧
      ∀ entry ∈ n.entriesFor logLen i, entry.Fits := by
  unfold Node.entriesFor
  constructor
  · rw [List.length_map, List.length_range]
    exact nToSend_le n logLen i
  · intro entry hentry
    obtain ⟨j, -, rfl⟩ := List.mem_map.mp hentry
    exact h.entryAt _

theorem Fits.sendAppendEntries (h : n.Fits) {term i : ℕ} (hterm : term < 2 ^ 32) (hi : i < 2 ^ 32)
    {entries : List LogEntry} (hmax : entries.length ≤ maxAppendEntriesN)
    (hentries : ∀ entry ∈ entries, entry.Fits) :
    (n.send i (.appendEntriesReq (n.appendEntriesReqTo term i entries))).Fits :=
  h.send hi ⟨hterm, h.id, u32_lt _, h.raftGetLogTerm _, ⟨h.le_commit, h.commit_lt⟩, hentries⟩ hmax

theorem Fits.broadcastAppendEntries (h : n.Fits) : n.broadcastAppendEntries.Fits := by
  unfold Node.broadcastAppendEntries
  dsimp only
  split
  · exact h
  · refine h.forOthers fun hm i hi => ?_
    obtain ⟨hmax, hentries⟩ := hm.entriesFor n.logLength i
    exact hm.sendAppendEntries (u32_lt _) hi hmax hentries

theorem Fits.sendHeartbeats (h : n.Fits) : n.sendHeartbeats.Fits := by
  unfold Node.sendHeartbeats
  dsimp only
  split
  · exact h
  · refine h.forOthers fun hm i hi => hm.sendAppendEntries (u32_lt _) hi (Nat.zero_le _) ?_
    intro entry hentry
    cases hentry

theorem Fits.setFaultDetectTimer (h : n.Fits) (env : Env) : (n.setFaultDetectTimer env).Fits :=
  h.mem rfl rfl rfl rfl rfl

theorem Fits.setElectionTimer (h : n.Fits) (env : Env) : (n.setElectionTimer env).Fits :=
  h.mem rfl rfl rfl rfl rfl

theorem Fits.setHeartbeatTimer (h : n.Fits) (env : Env) : (n.setHeartbeatTimer env).Fits :=
  h.mem rfl rfl rfl rfl rfl

/-! ### Elections -/

theorem Fits.startElection (h : n.Fits) (env : Env) : (n.startElection env).Fits := by
  unfold Node.startElection
  dsimp only
  split
  · exact h
  · generalize u32 _ = term
    have hset := (h.set .currentTerm term none).set .votedFor
      (n.set .currentTerm term none).config.id (some (.vote term n.config.id))
    have hcount : Fits { (n.set .currentTerm term none).set .votedFor
        (n.set .currentTerm term none).config.id (some (.vote term n.config.id)) with
      votesReceived := 1 } := hset.mem rfl rfl rfl rfl rfl
    exact (hcount.setElectionTimer env).broadcastRequestVote

theorem Fits.becomeFollower (h : n.Fits) (env : Env) (term : ℕ) {leaderId : ℕ}
    (hl : leaderId < 2 ^ 32) : (n.becomeFollower env term leaderId).Fits := by
  unfold Node.becomeFollower
  dsimp only
  refine Fits.setFaultDetectTimer ?_ env
  have hset := ((h.note (.becameFollower term)).set .currentTerm term none).knows hl .follower
  have hvote := hset.set .votedFor pfNoVote none
  exact hvote.mem rfl rfl rfl rfl rfl

theorem Fits.becomeCandidate (h : n.Fits) (env : Env) : (n.becomeCandidate env).Fits := by
  unfold Node.becomeCandidate
  dsimp only
  refine Fits.startElection ?_ env
  have hrole := h.knows (by decide : noLeader < 2 ^ 32) .candidate
  exact hrole.mem rfl rfl rfl rfl rfl

theorem Fits.becomeLeader (h : n.Fits) (env : Env) : (n.becomeLeader env).Fits := by
  unfold Node.becomeLeader
  dsimp only
  refine Fits.sendHeartbeats (Fits.setHeartbeatTimer ?_ env)
  have hrole := (h.note (.becameLeader (u32 (n.get .currentTerm)))).knows
    (by decide : noLeader < 2 ^ 32) .leader
  exact hrole.mem rfl rfl rfl rfl rfl

/-! ### Applying -/

theorem Fits.replyOutstanding (h : n.Fits) (idx : ℤ) {entry : LogEntry} (hentry : entry.Fits) :
    (n.replyOutstanding idx entry).Fits := by
  unfold Node.replyOutstanding
  split
  · exact h
  · have hflag : 1 < 2 ^ 8 := by decide
    have hrpc : (Rpc.procRes ⟨entry.clientId, entry.cmdSeqno, 1, n.config.id,
        u32 (n.get .currentTerm)⟩).Fits := ⟨hentry.2.1, hentry.2.2.1, hflag, h.id, u32_lt _⟩
    have hsent := (h.note (.reply idx entry)).send hentry.2.1 hrpc (Nat.zero_le _)
    exact hsent.mem rfl rfl rfl rfl rfl

theorem Fits.applyNext (h : n.Fits) : n.applyNext.Fits := by
  unfold Node.applyNext
  dsimp only
  have hlast : Fits { n with lastApplied := n.lastApplied + 1 } := h.mem rfl rfl rfl rfl rfl
  split
  · exact hlast
  · rename_i entry hread
    have hentry := hlast.store.read hread
    have hnote := hlast.note (.apply (n.lastApplied + 1) entry)
    split
    · exact hnote.replyOutstanding _ hentry
    · exact hnote

theorem Fits.applyToStateMachine (h : n.Fits) : n.applyToStateMachine.Fits := by
  unfold Node.applyToStateMachine
  generalize (n.commitIndex - n.lastApplied).toNat = fuel
  induction fuel generalizing n with
  | zero => exact h
  | succ fuel ih =>
      rw [Node.applyLoop]
      split
      · exact ih h.applyNext
      · exact h

/-! ### Requests and responses -/

theorem Fits.sendAppendEntriesResponse (h : n.Fits) {dst term newMatch success : ℕ}
    (hdst : dst < 2 ^ 32) (hterm : term < 2 ^ 32) (hmatch : newMatch < 2 ^ 32)
    (hsuccess : success < 2 ^ 8) : (n.sendAppendEntriesResponse dst term newMatch success).Fits :=
  h.send hdst ⟨hterm, hmatch, hsuccess⟩ (Nat.zero_le _)

theorem Fits.storeEntries (h : n.Fits) (newIdx i : ℕ) (logLen : ℤ) {entries : List LogEntry}
    (hentries : ∀ entry ∈ entries, entry.Fits) :
    (Node.storeEntries newIdx i logLen entries n).Fits := by
  induction entries generalizing i logLen n with
  | nil => exact h
  | cons entry entries ih =>
      have hentry := hentries entry List.mem_cons_self
      have hrest : ∀ e ∈ entries, e.Fits := fun e he => hentries e (List.mem_cons_of_mem _ he)
      rw [Node.storeEntries]
      dsimp only
      split
      · split
        · exact ih ((h.logRemoveLastN _).logWrite _ hentry none) _ _ hrest
        · exact ih h _ _ hrest
      · exact ih (h.logWrite _ hentry none) _ _ hrest

theorem Fits.advanceCommit (h : n.Fits) {req : AppendEntriesReq}
    (hcommit : req.leaderCommit < 2 ^ 31) : (n.advanceCommit req).Fits := by
  unfold Node.advanceCommit
  split
  · rename_i hgt
    dsimp only
    have hlast := i32_lt (u32 ((req.prevLogIdx : ℤ) + req.nEntries))
    have hlast' := le_i32 (u32 ((req.prevLogIdx : ℤ) + req.nEntries))
    generalize i32 (u32 ((req.prevLogIdx : ℤ) + req.nEntries)) = last at hlast hlast' ⊢
    have hlo := h.le_commit
    refine Fits.applyToStateMachine (h.commits ?_ ?_)
    · split <;> omega
    · split <;> omega
  · exact h

theorem Fits.acceptAppendEntries (h : n.Fits) (env : Env) {curTerm : ℕ} (hcur : curTerm < 2 ^ 32)
    {req : AppendEntriesReq} (hreq : (Rpc.appendEntriesReq req).Fits) :
    (n.acceptAppendEntries env curTerm req).Fits := by
  obtain ⟨-, hleader, -, -, ⟨-, hcommit⟩, hentries⟩ := hreq
  unfold Node.acceptAppendEntries
  dsimp only
  generalize hn₁ : (if n.role = .follower ∧ req.nEntries = 0 then _ else n) = n₁
  have hfits : n₁.Fits := by
    rw [← hn₁]
    split
    · exact h.mem rfl rfl rfl rfl rfl
    · exact h
  have htimed := hfits.setFaultDetectTimer env
  generalize n₁.setFaultDetectTimer env = n₂ at htimed ⊢
  have hzero : 0 < 2 ^ 32 := by decide
  have hno : 0 < 2 ^ 8 := by decide
  have hyes : 1 < 2 ^ 8 := by decide
  split
  · exact htimed
  split
  · exact htimed.sendAppendEntriesResponse hleader hcur hzero hno
  · have hstored := htimed.storeEntries (u32 ((req.prevLogIdx : ℤ) + 1)) 0 n₂.logLength hentries
    exact (hstored.advanceCommit hcommit).sendAppendEntriesResponse hleader hcur (u32_lt _) hyes

theorem Fits.handleAppendEntriesRequest (h : n.Fits) (env : Env) {req : AppendEntriesReq}
    (hreq : (Rpc.appendEntriesReq req).Fits) : (n.handleAppendEntriesRequest env req).Fits := by
  unfold Node.handleAppendEntriesRequest
  dsimp only
  have hzero : 0 < 2 ^ 32 := by decide
  have hno : 0 < 2 ^ 8 := by decide
  split
  · exact h
  split
  · exact h.sendAppendEntriesResponse hreq.2.1 (u32_lt _) hzero hno
  · refine Fits.acceptAppendEntries ?_ env (u32_lt _) hreq
    split
    · exact h.becomeFollower env _ hreq.2.1
    · exact h.knows hreq.2.1 n.role

theorem Fits.commitLoop (h : n.Fits) (curTerm : ℕ) {logLen : ℤ} (hlen : logLen < 2 ^ 31) :
    (n.commitLoop curTerm logLen).Fits := by
  unfold Node.commitLoop
  dsimp only
  have hlo := h.le_commit
  generalize n.commitIndex = first at hlo
  refine foldl_range_induct (motive := fun _ (m : Node Disk) => m.Fits) _ h fun k m hk hm => ?_
  unfold Node.tryCommit
  split
  · exact hm
  split
  · exact (hm.note _).commits (by omega) (by omega)
  · exact hm

theorem logLength_lt (n : Node Disk) : n.logLength < 2 ^ 31 := by
  rw [logLength, Disk.storage_length]
  exact i32_lt _

theorem Fits.handleAppendEntriesResponse (h : n.Fits) (env : Env) {srcId : ℕ}
    (hsrc : srcId < 2 ^ 32) (resp : AppendEntriesRes) :
    (n.handleAppendEntriesResponse env srcId resp).Fits := by
  unfold Node.handleAppendEntriesResponse
  dsimp only
  split
  · exact h.becomeFollower env _ hsrc
  split
  · exact h
  split
  · refine Fits.applyToStateMachine (Fits.commitLoop ?_ _ (logLength_lt n))
    exact h.mem rfl rfl rfl rfl rfl
  split
  · exact h.mem rfl rfl rfl rfl rfl
  · exact h

theorem Fits.decideVote (h : n.Fits) (env : Env) {curTerm : ℕ} (hcur : curTerm < 2 ^ 32)
    {req : RequestVoteReq} (hcand : req.candidateId < 2 ^ 32) :
    (n.decideVote env curTerm req).Fits := by
  have hno : 0 < 2 ^ 8 := by decide
  have hyes : 1 < 2 ^ 8 := by decide
  unfold Node.decideVote
  dsimp only
  split
  · exact h
  split
  · exact h.send hcand ⟨hcur, hno⟩ (Nat.zero_le _)
  · exact ((h.set .votedFor _ _).setElectionTimer env).send hcand ⟨hcur, hyes⟩ (Nat.zero_le _)

theorem Fits.handleRequestVoteRequest (h : n.Fits) (env : Env) {srcId : ℕ} (hsrc : srcId < 2 ^ 32)
    {req : RequestVoteReq} (hreq : (Rpc.requestVoteReq req).Fits) :
    (n.handleRequestVoteRequest env srcId req).Fits := by
  have hno : 0 < 2 ^ 8 := by decide
  unfold Node.handleRequestVoteRequest
  dsimp only
  split
  · exact h
  split
  · exact h.send hreq.2.1 ⟨u32_lt _, hno⟩ (Nat.zero_le _)
  split
  · exact (h.becomeFollower env _ hsrc).decideVote env hreq.1 hreq.2.1
  · exact h.decideVote env (u32_lt _) hreq.2.1

theorem Fits.handleRequestVoteResponse (h : n.Fits) (env : Env) {srcId : ℕ} (hsrc : srcId < 2 ^ 32)
    (resp : RequestVoteRes) : (n.handleRequestVoteResponse env srcId resp).Fits := by
  have hcount : Fits { n with votesReceived := n.votesReceived + 1 } := h.mem rfl rfl rfl rfl rfl
  unfold Node.handleRequestVoteResponse
  dsimp only
  split
  · exact h
  split
  · exact h.becomeFollower env _ hsrc
  split
  · exact h
  split
  · split
    · exact hcount.becomeLeader env
    · exact hcount
  · exact h

theorem Fits.recordOutstanding (h : n.Fits) (req : ProcReq) (logLen : ℤ) :
    (n.recordOutstanding req logLen).Fits := by
  unfold Node.recordOutstanding
  split
  · exact h
  · exact h.mem rfl rfl rfl rfl rfl

theorem Fits.handleProcRequest (h : n.Fits) {req : ProcReq} (hreq : (Rpc.procReq req).Fits)
    {srcId : ℕ} (hsrc : srcId < 2 ^ 32) : (n.handleProcRequest req srcId).Fits := by
  obtain ⟨hclient, hseqno, hcmd⟩ := hreq
  have hno : 0 < 2 ^ 8 := by decide
  unfold Node.handleProcRequest
  dsimp only
  split
  · exact h.send hsrc ⟨hclient, hseqno, hno, h.leaderId, u32_lt _⟩ (Nat.zero_le _)
  · refine Fits.broadcastAppendEntries (Fits.recordOutstanding ?_ _ _)
    exact h.appendLogEntry ⟨u32_lt _, hclient, hseqno, hcmd⟩

/-! ### One turn -/

theorem Fits.raftHandleRpc (h : n.Fits) (env : Env) {pkt : Pkt} (hsrc : pkt.src < 2 ^ 32)
    (hrpc : pkt.rpc.Fits) : (n.raftHandleRpc env pkt).Fits := by
  unfold Node.raftHandleRpc
  split
  · rename_i req heq
    exact h.handleAppendEntriesRequest env (heq ▸ hrpc)
  · exact h.handleAppendEntriesResponse env hsrc _
  · rename_i req heq
    exact h.handleRequestVoteRequest env hsrc (heq ▸ hrpc)
  · exact h.handleRequestVoteResponse env hsrc _
  · rename_i req heq
    exact h.handleProcRequest (heq ▸ hrpc) hsrc
  · exact h

theorem Fits.raftHandleTimeout (h : n.Fits) (env : Env) : (n.raftHandleTimeout env).Fits := by
  unfold Node.raftHandleTimeout
  split
  · split
    · exact h.becomeCandidate env
    split
    · exact h.becomeCandidate env
    · exact h.setFaultDetectTimer env
  · exact h.startElection env
  · have hsent := (h.setHeartbeatTimer env).sendHeartbeats
    dsimp only
    generalize (n.setHeartbeatTimer env).sendHeartbeats = n₁ at hsent ⊢
    have hcount : Fits { n₁ with heartbeatCount := n₁.heartbeatCount + 1 } :=
      hsent.mem rfl rfl rfl rfl rfl
    split
    · exact hcount.exit
    · exact hcount

end Node

end GeoRaft
