import GeoRaft.Node.CommitRule
import GeoRaft.Node.Silence

/-!
A node that cannot read its term.

Half of the handlers stop at the negative code of `get`. The others convert it to
`uint32_t` and go on with a term of at least `2 ^ 31`, which they compare with the
terms they are sent, write into entries and put into packets.
-/

namespace GeoRaft

open Word

/-- Storage in order, but for reads of the current term, which give `code`. -/
structure Unreadable where
  disk : Disk
  code : ℤ
  deriving DecidableEq

instance : Storage Unreadable where
  get f s :=
    match f with
    | .currentTerm => s.code
    | .votedFor => Storage.get .votedFor s.disk
  set f v s := ((Storage.set f v s.disk).1, { s with disk := (Storage.set f v s.disk).2 })
  length s := Storage.length s.disk
  read idx s := Storage.read idx s.disk
  write idx entry s :=
    ((Storage.write idx entry s.disk).1, { s with disk := (Storage.write idx entry s.disk).2 })
  removeLastN n s := ((Storage.removeLastN n s.disk).1, { s with disk := (Storage.removeLastN n s.disk).2 })

namespace Node

variable {n : Node Unreadable}

/-- Nothing has changed that a reader of the term should change, and no term is sent. -/
structure Untouched (n n' : Node Unreadable) : Prop where
  disk : n'.store.disk = n.store.disk
  role : n'.role = n.role
  commitIndex : n'.commitIndex = n.commitIndex
  matchIndex : n'.matchIndex = n.matchIndex
  silent : n'.Silent

/-- What the handlers that do not look at the sign take for the term. -/
def bogusTerm (n : Node Unreadable) : ℕ := u32 n.store.code

/-- The node is what `become_follower` would make of it. -/
def IsFollowerOf (n : Node Unreadable) (term : ℕ) : Prop :=
  n.role = .follower ∧ n.store.disk.currentTerm = term ∧ n.store.disk.votedFor = pfNoVote

/-- A success of the bogus term says nothing new, commits nothing and leaves nothing to
reply to. -/
def NothingNew (n : Node Unreadable) (srcId : ℕ) (resp : AppendEntriesRes) : Prop :=
  n.matchIndex.set srcId (i32 resp.newMatchIndex) = n.matchIndex ∧
    (∀ k, n.commitIndex < k → k < n.logLength → ¬n.Passes n.bogusTerm k) ∧ ¬n.Owes

/-- A response that an unreadable term keeps from doing anything: a success of the bogus
term also has to come from a node that the leader has a place for. -/
def HarmlessResponse (n : Node Unreadable) (srcId : ℕ) (resp : AppendEntriesRes) : Prop :=
  if n.bogusTerm < resp.term then n.IsFollowerOf resp.term
  else n.role = .leader → resp.term = n.bogusTerm →
    srcId < n.config.numNodes ∧ (resp.success ≠ 0 → n.NothingNew srcId resp)

/-- The packets that it keeps from doing anything. -/
def HarmlessPacket (n : Node Unreadable) (srcId : ℕ) : Rpc → Prop
  | .appendEntriesReq _ | .requestVoteReq _ | .procRes _ => True
  | .appendEntriesRes resp => n.HarmlessResponse srcId resp
  | .requestVoteRes resp =>
    n.role = .candidate → resp.term < n.bogusTerm ∨ resp.term = n.bogusTerm ∧
      (resp.voteGranted = 0 ∨ n.votesReceived + 1 ≤ n.config.numNodes / 2)
  | .procReq _ => False

/-- The timeouts that it does. -/
def HarmlessTimeout (env : Env) (n : Node Unreadable) : Prop :=
  match n.role with
  | .follower => ¬(n.config.timeoutScheme = .timeout ∨
      n.heartbeatTelemetry.numIntervals < n.heartbeatTelemetry.rampSize) ∧
    ¬n.heartbeatTelemetry.checkLeaderFailure env
  | .candidate => True
  | .leader => Alone n.config

theorem untouched_self (h : n.Silent) : Untouched n n := ⟨rfl, rfl, rfl, rfl, h⟩

theorem get_unreadable (n : Node Unreadable) : n.get .currentTerm = n.store.code := rfl

/-! ### Handlers that check -/

theorem handleAppendEntriesRequest_unreadable (env : Env) (h : n.store.code < 0)
    (req : AppendEntriesReq) : n.handleAppendEntriesRequest env req = n := by
  rw [handleAppendEntriesRequest, get_unreadable, if_pos h]

theorem handleRequestVoteRequest_unreadable (env : Env) (h : n.store.code < 0) (srcId : ℕ)
    (req : RequestVoteReq) : n.handleRequestVoteRequest env srcId req = n := by
  rw [handleRequestVoteRequest, get_unreadable, if_pos h]

theorem startElection_unreadable (env : Env) (h : n.store.code < 0) : n.startElection env = n := by
  rw [startElection, get_unreadable, if_pos h]

/-! ### Handlers that convert -/

theorem becomeFollower_unreadable (env : Env) (n : Node Unreadable) {term : ℕ} (h : term < 2 ^ 32)
    (leaderId : ℕ) : (n.becomeFollower env term leaderId).store.disk =
      { currentTerm := term, votedFor := pfNoVote, log := n.store.disk.log } := by
  show (Storage.set .votedFor pfNoVote (Storage.set .currentTerm term n.store.disk).2).2 = _
  rw [Disk.set_currentTerm, Disk.set_votedFor, u32_of_nat h, u32_of_nat (by decide)]

theorem silent_becomeFollower (env : Env) (n : Node Unreadable) (term leaderId : ℕ) :
    (n.becomeFollower env term leaderId).Silent ↔ n.Silent := by
  have hnote : (n.note (.becameFollower term)).Silent ↔ n.Silent := silent_append rfl (by simp)
  have hput : ∀ (m : Node Unreadable) (f : PersistentField) (v : ℕ), (m.set f v).Silent ↔ m.Silent :=
    fun m f v => silent_append rfl (by simp)
  rw [← hnote, ← hput (n.note (.becameFollower term)) .currentTerm term,
    ← hput ((n.note (.becameFollower term)).set .currentTerm term) .votedFor pfNoVote]
  exact silent_of_eq rfl

theorem becomeFollower_untouched (env : Env) (hs : n.Silent) {term : ℕ} (h : term < 2 ^ 32)
    (leaderId : ℕ) :
    Untouched n (n.becomeFollower env term leaderId) ↔ n.IsFollowerOf term := by
  have hdisk := becomeFollower_unreadable env n h leaderId
  constructor
  · intro hu
    have heq := hdisk.symm.trans hu.disk
    exact ⟨hu.role.symm, (congrArg Disk.currentTerm heq).symm, (congrArg Disk.votedFor heq).symm⟩
  · rintro ⟨hr, ht, hv⟩
    refine ⟨?_, hr.symm, rfl, rfl, (silent_becomeFollower env n term leaderId).mpr hs⟩
    rw [hdisk, ← ht, ← hv]

/-- The leader with a success written down. -/
def acknowledged (n : Node Unreadable) (srcId : ℕ) (resp : AppendEntriesRes) : Node Unreadable :=
  { n with
    matchIndex := n.matchIndex.set srcId (i32 resp.newMatchIndex)
    nextIndex := n.nextIndex.set srcId (u32 n.logLength) }

theorem commitLoop_of_none {σ : Type} [Storage σ] {n : Node σ} {curTerm : ℕ} {logLen : ℤ}
    (h : ∀ k, n.commitIndex < k → k < logLen → ¬n.Passes curTerm k) :
    n.commitLoop curTerm logLen = n := by
  unfold commitLoop
  refine foldl_range_induct (motive := fun _ m => m = n) _ rfl ?_
  rintro k m hk rfl
  exact tryCommit_of_not_passes (h _ (by omega) (by omega))

/-- Once a success is written down, what follows changes nothing just if nothing
passes and nothing is owed. -/
theorem commit_untouched {m : Node Unreadable} (hs : m.Silent) (hr : m.role = .leader) (curTerm : ℕ)
    (logLen : ℤ) :
    Untouched m ((m.commitLoop curTerm logLen).applyToStateMachine) ↔
      (∀ k, m.commitIndex < k → k < logLen → ¬m.Passes curTerm k) ∧ ¬m.Owes := by
  obtain ⟨-, -, hub⟩ := commitLoop_isGreatest m curTerm logLen
  constructor
  · intro hu
    have hnone : ∀ k, m.commitIndex < k → k < logLen → ¬m.Passes curTerm k := by
      intro k hlo hhi hp
      have hcommit := hu.commitIndex
      rw [applyToStateMachine_commitIndex] at hcommit
      have hle := hub (.inr ⟨hlo, hhi, hp⟩)
      omega
    have hsilent := hu.silent
    rw [commitLoop_of_none hnone, silent_applyToStateMachine_iff hr] at hsilent
    exact ⟨hnone, hsilent.2⟩
  · rintro ⟨hnone, hunowed⟩
    rw [commitLoop_of_none hnone]
    refine ⟨?_, ?_, ?_, ?_, (silent_applyToStateMachine_iff hr).mpr ⟨hs, hunowed⟩⟩
    · rw [applyToStateMachine_store]
    · rw [applyToStateMachine_eq]
    · rw [applyToStateMachine_commitIndex]
    · rw [applyToStateMachine_eq]

theorem acknowledged_passes {srcId : ℕ} {resp : AppendEntriesRes}
    (h : n.matchIndex.set srcId (i32 resp.newMatchIndex) = n.matchIndex) (curTerm : ℕ) (k : ℤ) :
    (n.acknowledged srcId resp).Passes curTerm k ↔ n.Passes curTerm k := by
  have hset : (n.acknowledged srcId resp).matchIndex = n.matchIndex := h
  have hled : SameLedger n (n.acknowledged srcId resp) := ⟨rfl, rfl, hset, rfl⟩
  rw [Passes, Passes, hled.raftGetLogTerm, hled.replicaCount, hled.config]

theorem commitLoop_matchIndex {m : Node Unreadable} (curTerm : ℕ) (logLen : ℤ) :
    (m.commitLoop curTerm logLen).applyToStateMachine.matchIndex = m.matchIndex := by
  rw [applyToStateMachine_eq]
  exact (commitLoop_isGreatest m curTerm logLen).1.matchIndex

/-- A success of the bogus term in a leader. -/
theorem acknowledged_untouched (hs : n.Silent) (hr : n.role = .leader) (srcId : ℕ)
    (resp : AppendEntriesRes) (curTerm : ℕ) (logLen : ℤ) (hlen : logLen = n.logLength)
    (hterm : curTerm = n.bogusTerm) :
    Untouched n (((n.acknowledged srcId resp).commitLoop curTerm logLen).applyToStateMachine) ↔
      n.NothingNew srcId resp := by
  have hcommit := @commit_untouched (n.acknowledged srcId resp) ((silent_of_eq rfl).mpr hs) hr curTerm
    logLen
  have hmatch := @commitLoop_matchIndex (n.acknowledged srcId resp) curTerm logLen
  generalize ((n.acknowledged srcId resp).commitLoop curTerm logLen).applyToStateMachine = n'
    at hcommit hmatch ⊢
  have hset : (n.acknowledged srcId resp).matchIndex = n.matchIndex.set srcId (i32 resp.newMatchIndex) :=
    rfl
  rw [NothingNew, ← hlen, ← hterm]
  constructor
  · intro hu
    have hm : n.matchIndex.set srcId (i32 resp.newMatchIndex) = n.matchIndex := by
      rw [← hset, ← hmatch, hu.matchIndex]
    obtain ⟨hnone, hunowed⟩ := hcommit.mp ⟨hu.disk, hu.role, hu.commitIndex, hmatch, hu.silent⟩
    exact ⟨hm, fun k hlo hhi hp => hnone k hlo hhi ((acknowledged_passes hm curTerm k).mpr hp), hunowed⟩
  · rintro ⟨hm, hnone, hunowed⟩
    have hu := hcommit.mpr
      ⟨fun k hlo hhi hp => hnone k hlo hhi ((acknowledged_passes hm curTerm k).mp hp), hunowed⟩
    exact ⟨hu.disk, hu.role, hu.commitIndex, by rw [hmatch, hset, hm], hu.silent⟩

/-- A response of the bogus term to a leader. -/
theorem handleAppendEntriesResponse_current (env : Env) (hs : n.Silent) (hr : n.role = .leader)
    (srcId : ℕ) {resp : AppendEntriesRes} (hterm : resp.term = n.bogusTerm) :
    Untouched n (n.handleAppendEntriesResponse env srcId resp) ↔
      (resp.success ≠ 0 → n.NothingNew srcId resp) := by
  have hbogus : u32 (n.get .currentTerm) = n.bogusTerm := rfl
  rw [handleAppendEntriesResponse, hbogus, if_neg (by omega), if_neg (by rw [hr]; simp [hterm])]
  by_cases hsucc : resp.success ≠ 0
  · rw [if_pos hsucc]
    refine (acknowledged_untouched hs hr srcId resp _ _ rfl rfl).trans ?_
    exact ⟨fun hnew _ => hnew, fun hnew => hnew hsucc⟩
  · rw [if_neg hsucc]
    refine iff_of_true ?_ fun hne => absurd hne hsucc
    split
    · exact ⟨rfl, rfl, rfl, rfl, (silent_of_eq rfl).mpr hs⟩
    · exact untouched_self hs

theorem handleAppendEntriesResponse_untouched (env : Env) (hs : n.Silent) (srcId : ℕ)
    {resp : AppendEntriesRes} (h : resp.term < 2 ^ 32) :
    ¬n.StrangeResponse srcId (.appendEntriesRes resp) ∧
      Untouched n (n.handleAppendEntriesResponse env srcId resp) ↔ n.HarmlessResponse srcId resp := by
  have hbogus : u32 (n.get .currentTerm) = n.bogusTerm := rfl
  rw [strangeResponse_iff, hbogus, HarmlessResponse]
  by_cases hgt : n.bogusTerm < resp.term
  · rw [if_pos hgt, handleAppendEntriesResponse, hbogus, if_pos hgt,
      becomeFollower_untouched env hs h srcId]
    exact and_iff_right fun hstrange => by omega
  rw [if_neg hgt]
  by_cases hcur : n.role = .leader ∧ resp.term = n.bogusTerm
  · obtain ⟨hr, hterm⟩ := hcur
    rw [handleAppendEntriesResponse_current env hs hr srcId hterm]
    constructor
    · rintro ⟨hknown, hnew⟩ - -
      exact ⟨not_le.mp fun hle => hknown ⟨hr, hle, hterm⟩, hnew⟩
    · intro hall
      obtain ⟨hlt, hnew⟩ := hall hr hterm
      exact ⟨fun hstrange => absurd hstrange.2.1 (not_le.mpr hlt), hnew⟩
  · -- stale, or nothing a node in this role looks at
    have hstale : n.role ≠ .leader ∨ resp.term < n.bogusTerm := by
      by_cases hr : n.role = .leader
      · exact .inr (lt_of_le_of_ne (not_lt.mp hgt) fun heq => hcur ⟨hr, heq⟩)
      · exact .inl hr
    rw [handleAppendEntriesResponse, hbogus, if_neg hgt, if_pos hstale]
    exact iff_of_true ⟨fun hstrange => hcur ⟨hstrange.1, hstrange.2.2⟩, untouched_self hs⟩
      fun hr hterm => absurd ⟨hr, hterm⟩ hcur

theorem unreadable_becomeLeader_role (env : Env) (n : Node Unreadable) : (n.becomeLeader env).role = .leader := by
  rw [becomeLeader, sendHeartbeats_eq]
  rfl

theorem handleRequestVoteResponse_untouched (env : Env) (hs : n.Silent) (srcId : ℕ)
    (resp : RequestVoteRes) :
    Untouched n (n.handleRequestVoteResponse env srcId resp) ↔
      n.HarmlessPacket srcId (.requestVoteRes resp) := by
  have hbogus : u32 (n.get .currentTerm) = n.bogusTerm := rfl
  rw [handleRequestVoteResponse, hbogus]
  dsimp only [HarmlessPacket]
  by_cases hr : n.role = .candidate
  · rw [if_neg (not_not.mpr hr)]
    by_cases hgt : resp.term > n.bogusTerm
    · rw [if_pos hgt]
      refine iff_of_false (fun hu => ?_) fun h => ?_
      · have hrole := hu.role
        rw [hr] at hrole
        cases hrole
      · rcases h hr with hlt | ⟨heq, -⟩
        · omega
        · omega
    rw [if_neg hgt]
    by_cases hlt : resp.term < n.bogusTerm
    · rw [if_pos hlt]
      exact iff_of_true (untouched_self hs) fun _ => .inl hlt
    rw [if_neg hlt]
    have hterm : resp.term = n.bogusTerm := by omega
    by_cases hgrant : resp.voteGranted ≠ 0
    · rw [if_pos hgrant]
      by_cases hmaj : n.votesReceived + 1 > n.config.numNodes / 2
      · rw [if_pos hmaj]
        refine iff_of_false (fun hu => ?_) fun h => ?_
        · have hrole := hu.role
          rw [unreadable_becomeLeader_role, hr] at hrole
          cases hrole
        · rcases h hr with hlt' | ⟨-, hzero | hfew⟩
          · exact hlt hlt'
          · exact hgrant hzero
          · omega
      · rw [if_neg hmaj]
        exact iff_of_true ⟨rfl, rfl, rfl, rfl, (silent_of_eq rfl).mpr hs⟩
          fun _ => .inr ⟨hterm, .inr (by omega)⟩
    · rw [if_neg hgrant]
      exact iff_of_true (untouched_self hs) fun _ => .inr ⟨hterm, .inl (not_not.mp hgrant)⟩
  · rw [if_pos hr]
    exact iff_of_true (untouched_self hs) fun h => absurd h hr

theorem unreadable_length (s : Unreadable) : Storage.length s = Storage.length s.disk := by
  simp only [Storage.length]

theorem logWrite_unreadable (idx : ℤ) (entry : LogEntry) (event : Option Event) :
    (n.logWrite idx entry event).store.disk = (Storage.write idx entry n.store.disk).2 := rfl

/-- An entry goes to the end of the log, whatever its term. -/
theorem appendLogEntry_unreadable (h : n.store.disk.log.length < 2 ^ 31) (entry : LogEntry) :
    (n.appendLogEntry entry).store.disk.log = n.store.disk.log ++ [entry] := by
  have hlength : n.logLength = n.store.disk.log.length := by
    rw [logLength, unreadable_length, Disk.storage_length, i32_of_nat h]
  have hwrite : (n.appendLogEntry entry).store.disk =
      (Storage.write n.store.disk.log.length entry n.store.disk).2 := by
    rw [appendLogEntry, hlength, if_neg (by omega), logWrite_unreadable]
  rw [hwrite, Disk.storage_write, Disk.write, u32_of_nat (by omega), if_neg (by omega), if_pos rfl]

theorem grown_touched {m : Node Unreadable} {entry : LogEntry}
    (h : m.store.disk.log = n.store.disk.log ++ [entry]) (req : ProcReq) (logLen : ℤ) :
    ¬Untouched n ((m.recordOutstanding req logLen).broadcastAppendEntries) := by
  intro hu
  have hdisk := hu.disk
  rw [broadcastAppendEntries_store, recordOutstanding_store] at hdisk
  rw [hdisk] at h
  exact List.cons_ne_nil _ _ (List.self_eq_append_right.mp h)

/-- A client always gets something done: a refusal that carries the term, or an entry. -/
theorem handleProcRequest_touched (hlen : n.store.disk.log.length < 2 ^ 31) (req : ProcReq)
    (srcId : ℕ) : ¬Untouched n (n.handleProcRequest req srcId) := by
  rw [handleProcRequest]
  by_cases hr : n.role ≠ .leader
  · rw [if_pos hr]
    exact fun hu => not_silent_of_mem (send_mem n _ _) hu.silent
  · rw [if_neg hr]
    exact grown_touched (appendLogEntry_unreadable hlen _) _ _

/-! ### Timeouts -/

theorem becomeCandidate_touched (env : Env) (hr : n.role = .follower) (h : n.store.code < 0) :
    ¬Untouched n (n.becomeCandidate env) := by
  intro hu
  have hstop := @startElection_unreadable { n with
    role := .candidate
    leaderId := noLeader
    votesReceived := 0
    heartbeatTelemetry := n.heartbeatTelemetry.reset } env h
  have hrole := hu.role
  rw [becomeCandidate, hstop, hr] at hrole
  cases hrole

theorem raftHandleTimeout_follower (env : Env) (hs : n.Silent) (hr : n.role = .follower)
    (h : n.store.code < 0) : Untouched n (n.raftHandleTimeout env) ↔ n.HarmlessTimeout env := by
  unfold raftHandleTimeout HarmlessTimeout
  rw [hr]
  dsimp only
  by_cases hplain : n.config.timeoutScheme = .timeout ∨
      n.heartbeatTelemetry.numIntervals < n.heartbeatTelemetry.rampSize
  · rw [if_pos hplain]
    exact iff_of_false (becomeCandidate_touched env hr h) fun hh => hh.1 hplain
  rw [if_neg hplain]
  by_cases hfail : n.heartbeatTelemetry.checkLeaderFailure env = true
  · rw [if_pos hfail]
    exact iff_of_false (becomeCandidate_touched env hr h) fun hh => hh.2 hfail
  · rw [if_neg hfail]
    exact iff_of_true ⟨rfl, rfl, rfl, rfl, (silent_of_eq rfl).mpr hs⟩ ⟨hplain, hfail⟩

theorem raftHandleTimeout_leader (env : Env) (hs : n.Silent) (hr : n.role = .leader) :
    Untouched n (n.raftHandleTimeout env) ↔ n.HarmlessTimeout env := by
  unfold raftHandleTimeout HarmlessTimeout
  rw [hr]
  dsimp only
  have htimer : (n.setHeartbeatTimer env).Silent ↔ n.Silent := silent_of_eq rfl
  have hbeat := @silent_sendHeartbeats_iff _ _ (n.setHeartbeatTimer env) hr
  rw [htimer, and_iff_right hs] at hbeat
  have hrest : Untouched n (n.setHeartbeatTimer env).sendHeartbeats ↔ Alone n.config := by
    constructor
    · exact fun hu => hbeat.mp hu.silent
    · intro halone
      refine ⟨?_, ?_, ?_, ?_, hbeat.mpr halone⟩
      all_goals
        rw [sendHeartbeats_eq]
        rfl
  generalize (n.setHeartbeatTimer env).sendHeartbeats = m at hrest ⊢
  refine Iff.trans ?_ hrest
  split
  · have hexit : Untouched n { m with
        heartbeatCount := m.heartbeatCount + 1
        script := m.script ++ [.exit] } ↔ Untouched n m := by
      have hsilent : ({ m with
          heartbeatCount := m.heartbeatCount + 1
          script := m.script ++ [.exit] } : Node Unreadable).Silent ↔ m.Silent :=
        silent_append rfl (by simp)
      exact ⟨fun hu => ⟨hu.disk, hu.role, hu.commitIndex, hu.matchIndex, hsilent.mp hu.silent⟩,
        fun hu => ⟨hu.disk, hu.role, hu.commitIndex, hu.matchIndex, hsilent.mpr hu.silent⟩⟩
    exact hexit
  · exact ⟨fun hu => ⟨hu.disk, hu.role, hu.commitIndex, hu.matchIndex, hu.silent⟩,
      fun hu => ⟨hu.disk, hu.role, hu.commitIndex, hu.matchIndex, hu.silent⟩⟩

/-- What a node that cannot read its term makes of a packet or a timeout: it keeps to its
tables and nothing is touched. -/
theorem unreadable_term (env : Env) (hs : n.Silent) (h : n.store.code < 0)
    (hlen : n.store.disk.log.length < 2 ^ 31) :
    (∀ pkt : Pkt, pkt.rpc.term < 2 ^ 32 →
      (¬n.StrangeResponse pkt.src pkt.rpc ∧ Untouched n (n.raftHandleRpc env pkt) ↔
        n.HarmlessPacket pkt.src pkt.rpc)) ∧
    (Untouched n (n.raftHandleTimeout env) ↔ n.HarmlessTimeout env) := by
  constructor
  · rintro ⟨dst, src, rpc⟩ hterm
    have hplain : (∀ resp, rpc ≠ .appendEntriesRes resp) → ¬n.StrangeResponse src rpc := by
      rintro hne ⟨-, -, resp, hrpc, -⟩
      exact hne resp hrpc
    rw [raftHandleRpc]
    cases rpc with
    | appendEntriesReq req =>
        dsimp only
        rw [handleAppendEntriesRequest_unreadable env h]
        exact iff_of_true ⟨hplain (by simp), untouched_self hs⟩ trivial
    | appendEntriesRes resp => exact handleAppendEntriesResponse_untouched env hs src hterm
    | requestVoteReq req =>
        dsimp only
        rw [handleRequestVoteRequest_unreadable env h]
        exact iff_of_true ⟨hplain (by simp), untouched_self hs⟩ trivial
    | requestVoteRes resp =>
        exact (and_iff_right (hplain (by simp))).trans
          (handleRequestVoteResponse_untouched env hs src resp)
    | procReq req => exact iff_of_false (fun hu => handleProcRequest_touched hlen req src hu.2) id
    | procRes resp => exact iff_of_true ⟨hplain (by simp), untouched_self hs⟩ trivial
  · cases hr : n.role with
    | follower => exact raftHandleTimeout_follower env hs hr h
    | candidate =>
        unfold raftHandleTimeout HarmlessTimeout
        rw [hr]
        dsimp only
        rw [startElection_unreadable env h]
        exact iff_of_true (untouched_self hs) trivial
    | leader => exact raftHandleTimeout_leader env hs hr

/-- A leader of three nodes whose term has become unreadable. -/
def termlessLeader : Node Unreadable :=
  { raftCreate (.plain 3 0) ⟨⟨2, 0, []⟩, -1⟩ with
    role := .leader
    matchIndex := [-1, -1, -1] }

/-- An old vote does nothing to it, and a success of node 20 is not called harmless. -/
theorem unreadable_term_vote :
    Untouched termlessLeader (termlessLeader.raftHandleRpc ⟨0, 0⟩ ⟨0, 1, .requestVoteRes ⟨2, 1⟩⟩) ∧
      ¬termlessLeader.HarmlessPacket 20 (.appendEntriesRes ⟨4294967295, 1, 1⟩) := by
  have hs : termlessLeader.Silent := fun pkt => List.not_mem_nil
  have hterm := (@unreadable_term termlessLeader ⟨0, 0⟩ hs (by decide) (by decide)).1
  refine ⟨((hterm ⟨0, 1, .requestVoteRes ⟨2, 1⟩⟩ (by decide)).mpr
    fun hr => absurd hr (by decide)).2, fun hharmless => ?_⟩
  exact ((hterm ⟨0, 20, .appendEntriesRes ⟨4294967295, 1, 1⟩⟩ (by decide)).mpr hharmless).1
    (by decide +kernel)

/-- A client's command is logged, and sent on, with the last term there is. -/
theorem entry_of_bogus_term :
    (termlessLeader.raftHandleRpc ⟨0, 0⟩ ⟨0, 9, .procReq ⟨9, 0, 5⟩⟩).store.disk.log =
        [⟨4294967295, 9, 0, 5⟩] ∧
      ¬Untouched termlessLeader
        (termlessLeader.raftHandleRpc ⟨0, 0⟩ ⟨0, 9, .procReq ⟨9, 0, 5⟩⟩) := by
  refine ⟨by decide +kernel, fun hu => ?_⟩
  have hdisk := hu.disk
  revert hdisk
  decide +kernel

end Node

end GeoRaft
