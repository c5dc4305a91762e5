import GeoRaft.Cluster.Indexes
import GeoRaft.Node.Lives
import GeoRaft.Node.Merge
import GeoRaft.Node.Replies
import GeoRaft.Node.Responses
import GeoRaft.Node.Simulation
import GeoRaft.Node.Unbounded

/-!
The `AppendEntries` traffic between a leader and one follower, turn by turn.

Of all a leader does without losing its role or its term, three things concern a
given follower: a heartbeat, a client request, and a response of that follower. Of
all a follower does, only a request of its leader touches its log.
-/

namespace GeoRaft

open Word

/-! ### What is sent -/

def Rpc.entriesReq : Rpc → Option AppendEntriesReq
  | .appendEntriesReq req => some req
  | _ => none

def Rpc.entriesRes : Rpc → Option AppendEntriesRes
  | .appendEntriesRes res => some res
  | _ => none

/-- The calls of one kind that the effects send to `dst`, in their order. -/
def sentTo {α : Type} (read : Rpc → Option α) (dst : ℕ) (es : List (Effect Disk)) : List α :=
  es.filterMap fun e => e.packet.bind fun pkt => if pkt.dst = dst then read pkt.rpc else none

variable {α : Type} {read : Rpc → Option α} {dst : ℕ} {es : List (Effect Disk)}

@[simp] theorem sentTo_nil (read : Rpc → Option α) (dst : ℕ) : sentTo read dst [] = [] := rfl

@[simp] theorem sentTo_append (read : Rpc → Option α) (dst : ℕ) (es fs : List (Effect Disk)) :
    sentTo read dst (es ++ fs) = sentTo read dst es ++ sentTo read dst fs := List.filterMap_append

theorem sentTo_send (read : Rpc → Option α) (dst : ℕ) (pkt : Pkt) :
    sentTo read dst [.send pkt] = if pkt.dst = dst then (read pkt.rpc).toList else [] := by
  by_cases hdst : pkt.dst = dst
  · cases hread : read pkt.rpc <;> simp [sentTo, Effect.packet, hdst, hread]
  · simp [sentTo, Effect.packet, hdst]

namespace Node

variable {n n' : Node Disk} {s : Disk}

theorem sentTo_eq_nil (h : Speaks (fun _ pkt => read pkt.rpc = none) s n) (dst : ℕ) :
    sentTo read dst n.script = [] := by
  rw [sentTo, List.filterMap_eq_nil_iff]
  intro e he
  cases e with
  | send pkt =>
      obtain ⟨pre, post, hsplit⟩ := List.append_of_mem he
      have hnone := h.sends pre pkt post hsplit
      simp [Effect.packet, hnone]
  | store => rfl
  | note => rfl
  | exit => rfl

/-- A broadcast sends to each of the other nodes once. -/
theorem sentTo_forOthers (n : Node Disk) {rpc : Node Disk → ℕ → Rpc}
    (hrpc : ∀ s i, rpc { n with script := s } i = rpc n i) (hlt : dst < n.config.numNodes)
    (hne : dst ≠ n.config.id) :
    sentTo read dst (n.forOthers fun m i => m.send i (rpc m i)).script =
      sentTo read dst n.script ++ (read (rpc n dst)).toList := by
  suffices hloop : sentTo read dst (n.forOthers fun m i => m.send i (rpc m i)).script =
      sentTo read dst n.script ++
        if dst < n.config.numNodes then (read (rpc n dst)).toList else [] by
    rw [hloop, if_pos hlt]
  refine And.right (forOthers_induct (motive := fun k m => m = { n with script := m.script } ∧
    sentTo read dst m.script =
      sentTo read dst n.script ++ if dst < k then (read (rpc n dst)).toList else [])
    n ⟨rfl, by simp⟩ ?_)
  rintro k m - ⟨hm, hsent⟩
  split
  · rename_i hk
    refine ⟨hm, ?_⟩
    rw [hsent]
    congr 1
    exact if_congr (by omega) rfl rfl
  · refine ⟨by rw [hm]; rfl, ?_⟩
    have hcall : rpc m k = rpc n k := by rw [hm, hrpc]
    show sentTo read dst (m.script ++ [.send ⟨k, m.config.id, rpc m k⟩]) = _
    rw [sentTo_append, sentTo_send, hsent, hcall, List.append_assoc]
    congr 1
    rcases lt_trichotomy k dst with hlt | rfl | hgt
    · simp [hlt.ne, show ¬dst < k by omega, show ¬dst < k + 1 by omega]
    · simp
    · simp [hgt, hgt.ne', show dst < k + 1 by omega]

/-! ### Requests -/

end Node

/-- A request of the leader `id` of term `t` that carries its log from `k` to `c`. -/
structure Drawn (t id : ℕ) (log : List LogEntry) (k c : ℕ) (req : AppendEntriesReq) : Prop where
  term : req.term = t
  leaderId : req.leaderId = id
  prevLogIdx : req.prevLogIdx = u32 ((k : ℤ) - 1)
  prevLogTerm : req.prevLogTerm = termBefore log k
  entries : req.entries = (log.drop k).take (c - k)
  le : k ≤ c
  within : c ≤ log.length

namespace Drawn

variable {t id k c : ℕ} {log : List LogEntry} {req : AppendEntriesReq}

theorem nEntries (h : Drawn t id log k c req) : req.nEntries = c - k := by
  have hin := h.within
  rw [AppendEntriesReq.nEntries, h.entries, List.length_take, List.length_drop]
  omega

/-- The log may have grown since. -/
theorem append (h : Drawn t id log k c req) (e : LogEntry) : Drawn t id (log ++ [e]) k c req := by
  have hle := h.le
  have hin := h.within
  refine ⟨h.term, h.leaderId, h.prevLogIdx, ?_, ?_, hle, ?_⟩
  · rw [h.prevLogTerm, termBefore, termBefore, List.take_append_of_le_length (by omega)]
  · rw [h.entries, List.drop_append_of_le_length (by omega),
      List.take_append_of_le_length (by rw [List.length_drop]; omega)]
  · rw [List.length_append]
    omega

/-- The places it speaks of, read off the request. -/
theorem start_eq (h : Drawn t id log k c req) (hlen : log.length < 2 ^ 31) :
    u32 ((req.prevLogIdx : ℤ) + 1) = k := by
  have hle := h.le
  have hin := h.within
  exact Node.newIdx_eq (by omega) h.prevLogIdx

theorem newMatch_eq (h : Drawn t id log k c req) :
    u32 ((req.prevLogIdx : ℤ) + req.nEntries) = u32 ((c : ℤ) - 1) := by
  have hle := h.le
  have hin := h.within
  rw [h.prevLogIdx, h.nEntries]
  unfold u32
  omega

end Drawn

namespace Node

variable {n n' : Node Disk} {s : Disk}

theorem u32_term (h : n.store.currentTerm < 2 ^ 31) :
    u32 (n.get .currentTerm) = n.store.currentTerm := u32_get_currentTerm (by omega)

theorem drawn_reqTo (hlen : n.store.log.length < 2 ^ 31) {i c t : ℕ}
    (hk : n.nextIndex.getD i 0 ≤ c) (hc : c ≤ n.store.log.length) {entries : List LogEntry}
    (he : entries = (n.store.log.drop (n.nextIndex.getD i 0)).take (c - n.nextIndex.getD i 0)) :
    Drawn t n.config.id n.store.log (n.nextIndex.getD i 0) c (n.appendEntriesReqTo t i entries) where
  term := rfl
  leaderId := rfl
  prevLogIdx := rfl
  prevLogTerm := appendEntriesReqTo_prevLogTerm hlen (hk.trans hc) t entries
  entries := he
  le := hk
  within := hc

theorem sendHeartbeats_sent (hr : n.role = .leader) (hlt : dst < n.config.numNodes)
    (hne : dst ≠ n.config.id) : sentTo Rpc.entriesReq dst n.sendHeartbeats.script =
      sentTo Rpc.entriesReq dst n.script ++
        [n.appendEntriesReqTo (u32 (n.get .currentTerm)) dst []] := by
  rw [sendHeartbeats, if_neg (not_not.mpr hr)]
  dsimp only
  generalize u32 (n.get .currentTerm) = t
  refine @sentTo_forOthers _ Rpc.entriesReq dst n
    (fun m i => .appendEntriesReq (m.appendEntriesReqTo t i [])) (fun s i => ?_) hlt hne
  rw [appendEntriesReqTo_script]

theorem broadcastAppendEntries_sent (hr : n.role = .leader) (hlt : dst < n.config.numNodes)
    (hne : dst ≠ n.config.id) : sentTo Rpc.entriesReq dst n.broadcastAppendEntries.script =
      sentTo Rpc.entriesReq dst n.script ++ [n.appendEntriesReqTo (u32 (n.get .currentTerm)) dst
        (n.entriesFor n.logLength dst)] := by
  rw [broadcastAppendEntries, if_neg (not_not.mpr hr)]
  dsimp only
  generalize u32 (n.get .currentTerm) = t
  generalize n.logLength = len
  refine @sentTo_forOthers _ Rpc.entriesReq dst n
    (fun m i => .appendEntriesReq (m.appendEntriesReqTo t i (m.entriesFor len i)))
    (fun s i => ?_) hlt hne
  rw [entriesFor_script, appendEntriesReqTo_script]

/-! ### The leader -/

/-- The node `f` is sent one request, which carries the log from its next index to `c`. -/
structure Offers (n : Node Disk) (f c : ℕ) (n' : Node Disk) : Prop where
  sent : ∃ req, sentTo Rpc.entriesReq f n'.script = [req] ∧
    Drawn n.store.currentTerm n.config.id n'.store.log (n.nextIndex.getD f 0) c req

/-- A heartbeat. -/
structure Beats (n : Node Disk) (f : ℕ) (n' : Node Disk) : Prop
    extends Offers n f (n.nextIndex.getD f 0) n' where
  log : n'.store.log = n.store.log

/-- A new entry, which goes out with as many of those before it as fit. -/
structure Appends (n : Node Disk) (f : ℕ) (e : LogEntry) (n' : Node Disk) : Prop extends
    Offers n f (min (n.nextIndex.getD f 0 + maxAppendEntriesN) n'.store.log.length) n' where
  log : n'.store.log = n.store.log ++ [e]

/-- What a turn of a leader means to the node `f`. -/
inductive LeaderTurn (n : Node Disk) (f : ℕ) (n' : Node Disk) : Prop
  | quiet (hlog : n'.store.log = n.store.log) (hsent : sentTo Rpc.entriesReq f n'.script = [])
  | beat (h : Beats n f n')
  | append (call : ProcReq) (h : Appends n f (n.entryOf call) n')

/-- A leader with a place for `f` in its tables. -/
structure LeaderOf (n : Node Disk) (f : ℕ) : Prop where
  role : n.role = .leader
  term : n.store.currentTerm < 2 ^ 31
  length : n.store.log.length < 2 ^ 31
  member : f < n.config.numNodes
  other : f ≠ n.config.id
  slot : f < n.nextIndex.length
  next : n.nextIndex.getD f 0 ≤ n.store.log.length
  stays : n.config.crashAfterH < 0

/-- A leader whose log may have grown. -/
theorem LeaderOf.congr {f : ℕ} (h : n.LeaderOf f) (hk : Keeps n n')
    (ht : n'.store.currentTerm = n.store.currentTerm) (hlen : n'.store.log.length < 2 ^ 31)
    (hle : n.store.log.length ≤ n'.store.log.length) : n'.LeaderOf f where
  role := hk.role.trans h.role
  term := by rw [ht]; exact h.term
  length := hlen
  member := by rw [hk.config]; exact h.member
  other := by rw [hk.config]; exact h.other
  slot := by rw [hk.nextIndex]; exact h.slot
  next := by rw [hk.nextIndex]; exact h.next.trans hle
  stays := by rw [hk.config]; exact h.stays

theorem LeaderOf.heartbeats {f : ℕ} (h : n.LeaderOf f)
    (hidle : sentTo Rpc.entriesReq f n.script = []) :
    ∃ req, sentTo Rpc.entriesReq f n.sendHeartbeats.script = [req] ∧
      Drawn n.store.currentTerm n.config.id n.store.log (n.nextIndex.getD f 0)
        (n.nextIndex.getD f 0) req := by
  have hsent := sendHeartbeats_sent h.role h.member h.other
  rw [hidle, List.nil_append, u32_term h.term] at hsent
  exact ⟨_, hsent, drawn_reqTo h.length le_rfl h.next (by simp)⟩

theorem LeaderOf.broadcast {f : ℕ} (h : n.LeaderOf f)
    (hidle : sentTo Rpc.entriesReq f n.script = []) :
    ∃ req, sentTo Rpc.entriesReq f n.broadcastAppendEntries.script = [req] ∧
      Drawn n.store.currentTerm n.config.id n.store.log (n.nextIndex.getD f 0)
        (min (n.nextIndex.getD f 0 + maxAppendEntriesN) n.store.log.length) req := by
  have hnext := h.next
  have hsent := broadcastAppendEntries_sent h.role h.member h.other
  rw [hidle, List.nil_append, u32_term h.term] at hsent
  refine ⟨_, hsent, drawn_reqTo h.length (by omega) (min_le_right _ _) ?_⟩
  rw [entriesFor_eq h.length hnext, List.take_eq_take_iff, List.length_drop]
  omega

theorem LeaderOf.timeout {f : ℕ} (h : n.LeaderOf f) (hidle : n.script = []) (env : Env) :
    Beats n f (n.raftHandleTimeout env) := by
  have hk := setHeartbeatTimer_keeps env n
  obtain ⟨hs, hscript⟩ : (n.setHeartbeatTimer env).store = n.store ∧
      (n.setHeartbeatTimer env).script = n.script := ⟨rfl, rfl⟩
  have hcrash := h.stays
  unfold raftHandleTimeout
  rw [h.role]
  dsimp only
  generalize n.setHeartbeatTimer env = m at hk hs hscript ⊢
  have hm : m.LeaderOf f := h.congr hk (by rw [hs]) (by rw [hs]; exact h.length) (by rw [hs])
  obtain ⟨req, hsent, hdrawn⟩ := hm.heartbeats (by rw [hscript, hidle]; rfl)
  rw [hs, hk.config, hk.nextIndex] at hdrawn
  have heq := sendHeartbeats_eq m
  have hcfg : m.sendHeartbeats.config = n.config := by rw [heq]; exact hk.config
  have hstore : m.sendHeartbeats.store = n.store := by rw [heq]; exact hs
  generalize m.sendHeartbeats = m' at hsent hcfg hstore ⊢
  rw [if_neg fun hexit => by rw [hcfg] at hexit; omega]
  refine ⟨⟨req, hsent, ?_⟩, congrArg Disk.log hstore⟩
  show Drawn _ _ m'.store.log _ _ req
  rw [hstore]
  exact hdrawn

theorem LeaderOf.client {f : ℕ} (h : n.LeaderOf f) (hidle : n.script = []) (call : ProcReq) (src : ℕ)
    (hroom : (n.handleProcRequest call src).store.log.length < 2 ^ 31) :
    Appends n f (n.entryOf call) (n.handleProcRequest call src) := by
  have happ := appendLogEntry_store h.length (n.entryOf call)
  have hsilent : sentTo Rpc.entriesReq f (n.appendLogEntry (n.entryOf call)).script = [] := by
    rw [appendLogEntry_eq h.length]
    show sentTo Rpc.entriesReq f (n.script ++ [_]) = []
    rw [sentTo_append, hidle]
    rfl
  have hk := (appendLogEntry_keeps n (n.entryOf call)).trans
    (recordOutstanding_keeps _ call n.logLength)
  rw [handleProcRequest_eq h.term h.role call src] at hroom ⊢
  rw [broadcastAppendEntries_store, recordOutstanding_store] at hroom
  generalize n.appendLogEntry (n.entryOf call) = m at happ hsilent hk hroom ⊢
  have hs := recordOutstanding_store m call n.logLength
  have hscript := recordOutstanding_script (n := m) call n.logLength
  generalize m.recordOutstanding call n.logLength = m' at hk hs hscript ⊢
  rw [happ] at hs hroom
  have hm : m'.LeaderOf f := by
    refine h.congr hk (by rw [hs]) (by rw [hs]; exact hroom) ?_
    rw [hs, List.length_append]
    exact Nat.le_add_right _ _
  obtain ⟨req, hsent, hdrawn⟩ := hm.broadcast (by rw [hscript, hsilent])
  have hlog : m'.broadcastAppendEntries.store.log = n.store.log ++ [n.entryOf call] := by
    rw [broadcastAppendEntries_store, hs]
  rw [hk.config, hk.nextIndex] at hdrawn
  refine ⟨⟨req, hsent, ?_⟩, hlog⟩
  rw [broadcastAppendEntries_store, hs]
  rw [hs] at hdrawn
  exact hdrawn

/-! ### Turns that have nothing to do with the traffic -/

def NoEntries (_ : Disk) (pkt : Pkt) : Prop := pkt.rpc.entriesReq = none ∧ pkt.rpc.entriesRes = none

/-- From the storage `s` on, the log is left alone and no `AppendEntries` is sent. -/
structure Aside (s : Disk) (n : Node Disk) : Prop where
  log : n.store.log = s.log
  clear : Speaks NoEntries s n

namespace Aside

theorem idle (h : n.script = []) : Aside n.store n := ⟨rfl, speaks_of_idle h⟩

theorem mem (h : Aside s n) (hs : n'.script = n.script) (hd : n'.store = n.store) : Aside s n' :=
  ⟨by rw [hd, h.log], h.clear.mem hs hd⟩

theorem votes (h : Aside s n) (v : ℕ) : Aside s { n with votesReceived := v } := h.mem rfl rfl

theorem setElectionTimer (h : Aside s n) (env : Env) : Aside s (n.setElectionTimer env) :=
  h.mem rfl rfl

theorem send (h : Aside s n) {rpc : Rpc} (hreq : rpc.entriesReq = none) (hres : rpc.entriesRes = none)
    (dst : ℕ) : Aside s (n.send dst rpc) := ⟨h.log, h.clear.send ⟨hreq, hres⟩⟩

theorem set (h : Aside s n) (f : PersistentField) (v : ℕ) (event : Option Event) :
    Aside s (n.set f v event) := by
  refine ⟨?_, h.clear.set f v event⟩
  rw [set_store, ← h.log]
  cases f <;> rfl

theorem requestsTo (h : Aside s n) (f : ℕ) : sentTo Rpc.entriesReq f n.script = [] :=
  sentTo_eq_nil ⟨h.clear.store, fun pre pkt post hsplit => (h.clear.sends pre pkt post hsplit).1⟩ f

theorem responsesTo (h : Aside s n) (f : ℕ) : sentTo Rpc.entriesRes f n.script = [] :=
  sentTo_eq_nil ⟨h.clear.store, fun pre pkt post hsplit => (h.clear.sends pre pkt post hsplit).2⟩ f

theorem becomeFollower (h : Aside s n) (env : Env) (term leaderId : ℕ) :
    Aside s (n.becomeFollower env term leaderId) :=
  ⟨by rw [becomeFollower_log, h.log], h.clear.becomeFollower env term leaderId⟩

theorem decideVote (h : Aside s n) (env : Env) (curTerm : ℕ) (req : RequestVoteReq) :
    Aside s (n.decideVote env curTerm req) := by
  unfold Node.decideVote
  dsimp only
  split
  · exact h
  split
  · exact h.send rfl rfl _
  · refine send ?_ rfl rfl _
    exact (h.set _ _ _).mem rfl rfl

theorem handleRequestVoteRequest (h : Aside s n) (env : Env) (srcId : ℕ) (req : RequestVoteReq) :
    Aside s (n.handleRequestVoteRequest env srcId req) := by
  unfold Node.handleRequestVoteRequest
  dsimp only
  split
  · exact h
  split
  · exact h.send rfl rfl _
  split
  · exact (h.becomeFollower env _ _).decideVote env _ _
  · exact h.decideVote env _ _

theorem handleAppendEntriesResponse (h : Aside s n) (env : Env) (srcId : ℕ)
    (resp : AppendEntriesRes) : Aside s (n.handleAppendEntriesResponse env srcId resp) := by
  unfold Node.handleAppendEntriesResponse
  dsimp only
  generalize u32 (n.get .currentTerm) = curTerm
  generalize hlen : n.logLength = logLen
  split
  · exact h.becomeFollower env _ _
  split
  · exact h
  split
  · have hcredit : Aside s { n with
        matchIndex := n.matchIndex.set srcId (i32 resp.newMatchIndex)
        nextIndex := n.nextIndex.set srcId (u32 logLen) } := h.mem rfl rfl
    generalize ({ n with
        matchIndex := n.matchIndex.set srcId (i32 resp.newMatchIndex)
        nextIndex := n.nextIndex.set srcId (u32 logLen) } : Node Disk) = m at hcredit ⊢
    have hloop := commitLoop_speaks curTerm logLen hcredit.clear
    have hstore := commitLoop_store curTerm logLen m
    generalize m.commitLoop curTerm logLen = m' at hloop hstore ⊢
    refine ⟨?_, hloop.applyToStateMachine fun _ _ _ => ⟨rfl, rfl⟩⟩
    rw [applyToStateMachine_store, hstore, hcredit.log]
  split
  · exact h.mem rfl rfl
  · exact h

theorem handleRequestVoteResponse (h : Aside s n) (hr : n.role ≠ .candidate) (env : Env) (srcId : ℕ)
    (resp : RequestVoteRes) : Aside s (n.handleRequestVoteResponse env srcId resp) := by
  rw [Node.handleRequestVoteResponse, if_pos hr]
  exact h

theorem handleProcRequest (h : Aside s n) (hr : n.role ≠ .leader) (req : ProcReq) (srcId : ℕ) :
    Aside s (n.handleProcRequest req srcId) := by
  rw [Node.handleProcRequest, if_pos hr]
  exact h.send rfl rfl _

theorem broadcastRequestVote (h : Aside s n) : Aside s n.broadcastRequestVote := by
  refine ⟨by rw [broadcastRequestVote_store, h.log], ?_⟩
  unfold Node.broadcastRequestVote
  dsimp only
  split
  · exact h.clear
  · exact h.clear.forOthers fun _ _ _ _ => ⟨rfl, rfl⟩

theorem startElection (h : Aside s n) (env : Env) : Aside s (n.startElection env) := by
  unfold Node.startElection
  dsimp only
  split
  · exact h
  · exact ((((h.set _ _ _).set _ _ _).votes 1).setElectionTimer env).broadcastRequestVote

theorem becomeCandidate (h : Aside s n) (env : Env) : Aside s (n.becomeCandidate env) := by
  unfold Node.becomeCandidate
  dsimp only
  refine startElection ?_ env
  exact h.mem rfl rfl

theorem raftHandleTimeout (h : Aside s n) (hr : n.role ≠ .leader) (env : Env) :
    Aside s (n.raftHandleTimeout env) := by
  unfold Node.raftHandleTimeout
  split
  · split
    · exact h.becomeCandidate env
    split
    · exact h.becomeCandidate env
    · exact h.mem rfl rfl
  · exact h.startElection env
  · rename_i hlead
    exact absurd hlead hr

end Aside

/-- An `AppendEntries` request of an earlier term is turned down. -/
theorem handleAppendEntriesRequest_stale (env : Env) (hterm : n.store.currentTerm < 2 ^ 31)
    {req : AppendEntriesReq} (hreq : req.term < n.store.currentTerm) :
    n.handleAppendEntriesRequest env req =
      n.sendAppendEntriesResponse req.leaderId n.store.currentTerm 0 0 := by
  have hread : n.get .currentTerm = n.store.currentTerm := by
    rw [get_currentTerm, i32_of_nat hterm]
  rw [handleAppendEntriesRequest, hread, if_neg (by omega), u32_of_nat (by omega), if_pos hreq]

/-- What a leader `n` can get besides the responses of `f` in its term, which it leads
alone. -/
def Foreign (n : Node Disk) (f : ℕ) : Input → Prop
  | .packet _ pkt => (∀ req, pkt.rpc = .appendEntriesReq req → req.term < n.store.currentTerm) ∧
      ∀ res, pkt.rpc = .appendEntriesRes res → pkt.src = f → res.term ≠ n.store.currentTerm
  | .timeout _ => True

/-- What the leader keeps about `f` is as it was. -/
structure SamePlace (f : ℕ) (n n' : Node Disk) : Prop where
  config : n'.config = n.config
  slots : n'.nextIndex.length = n.nextIndex.length
  next : n'.nextIndex.getD f 0 = n.nextIndex.getD f 0

theorem Keeps.samePlace (h : Keeps n n') (f : ℕ) : SamePlace f n n' :=
  ⟨h.config, by rw [h.nextIndex], by rw [h.nextIndex]⟩

theorem becomeFollower_role (env : Env) (n : Node Disk) (term leaderId : ℕ) :
    (n.becomeFollower env term leaderId).role = .follower := rfl

/-- The response of another node, or to a request of another term. -/
theorem handleAppendEntriesResponse_samePlace (env : Env) {f srcId : ℕ} {resp : AppendEntriesRes}
    (hsrc : srcId = f → resp.term ≠ u32 (n.get .currentTerm))
    (hr : (n.handleAppendEntriesResponse env srcId resp).role = .leader) :
    SamePlace f n (n.handleAppendEntriesResponse env srcId resp) := by
  rcases handleAppendEntriesResponse_cases env n srcId resp with
    ⟨-, heq⟩ | heq | ⟨-, hterm, hcase⟩
  · rw [heq, becomeFollower_role] at hr
    cases hr
  · rw [heq]
    exact (Keeps.refl n).samePlace f
  · have hne : srcId ≠ f := fun heq => hsrc heq hterm
    rcases hcase with ⟨-, hidle⟩ | ⟨-, -, heq⟩
    · have hk := hidle.keeps
      refine ⟨hk.config, ?_, ?_⟩ <;> rw [hk.nextIndex, credit]
      · exact List.length_set
      · simp [List.getElem?_set_ne hne]
    · rw [heq]
      exact ⟨rfl, by simp [debit], by simp [debit, hne]⟩

theorem handleRequestVoteRequest_samePlace (env : Env) (f srcId : ℕ) (req : RequestVoteReq)
    (hr : (n.handleRequestVoteRequest env srcId req).role = .leader) :
    SamePlace f n (n.handleRequestVoteRequest env srcId req) := by
  rcases handleRequestVoteRequest_cases env n srcId req with hidle | ⟨-, heq⟩ | ⟨-, heq⟩
  · exact hidle.keeps.samePlace f
  · rw [heq, (decideVote_keeps env _ _ _).role, becomeFollower_role] at hr
    cases hr
  · rw [heq]
    exact (decideVote_keeps env n _ _).samePlace f

/-- A turn of a leader that stays a leader, and which is not about a response of `f`. -/
theorem LeaderOf.turn {f : ℕ} (h : n.LeaderOf f) (hidle : n.script = []) {input : Input}
    (hin : n.Foreign f input) (hr : (n.handle input).role = .leader)
    (hroom : (n.handle input).store.log.length < 2 ^ 31) :
    LeaderTurn n f (n.handle input) ∧ SamePlace f n (n.handle input) := by
  have haside : Aside n.store n := .idle hidle
  have hquiet : ∀ {m : Node Disk}, Aside n.store m → LeaderTurn n f m :=
    fun hm => .quiet hm.log (hm.requestsTo f)
  have hlead : n.role ≠ .candidate := by rw [h.role]; decide
  cases input with
  | timeout env =>
      refine ⟨.beat (h.timeout hidle env), ?_⟩
      rcases raftHandleTimeout_cases env n with hidles | ⟨hf, -⟩ | ⟨hc, -⟩
      · exact hidles.keeps.samePlace f
      · rw [h.role] at hf
        cases hf
      · exact absurd hc hlead
  | packet env pkt =>
      obtain ⟨hstale, hsrc⟩ := hin
      unfold Node.handle at hr hroom ⊢
      dsimp only at hr hroom ⊢
      split
      · exact ⟨hquiet haside, (Keeps.refl n).samePlace f⟩
      · rename_i hdst
        rw [if_neg hdst] at hr hroom
        unfold Node.raftHandleRpc at hr hroom ⊢
        cases hrpc : pkt.rpc with
        | appendEntriesReq req =>
            dsimp only
            rw [handleAppendEntriesRequest_stale env h.term (hstale req hrpc)]
            refine ⟨.quiet rfl ?_, (send_keeps _ _ _).samePlace f⟩
            show sentTo Rpc.entriesReq f (n.script ++ [_]) = []
            rw [sentTo_append, hidle, sentTo_send, sentTo_nil]
            split <;> rfl
        | appendEntriesRes resp =>
            simp only [hrpc] at hr hsrc ⊢
            refine ⟨hquiet (haside.handleAppendEntriesResponse env _ resp), ?_⟩
            refine handleAppendEntriesResponse_samePlace env (fun heq => ?_) hr
            rw [u32_term h.term]
            exact hsrc resp rfl heq
        | requestVoteReq req =>
            simp only [hrpc] at hr ⊢
            exact ⟨hquiet (haside.handleRequestVoteRequest env _ req),
              handleRequestVoteRequest_samePlace env f _ req hr⟩
        | requestVoteRes resp =>
            dsimp only
            rw [handleRequestVoteResponse, if_pos hlead]
            exact ⟨hquiet haside, (Keeps.refl n).samePlace f⟩
        | procReq call =>
            simp only [hrpc] at hroom ⊢
            exact ⟨.append call (h.client hidle call _ hroom), (handleProcRequest_keeps n call _).samePlace f⟩
        | procRes resp => exact ⟨hquiet haside, (Keeps.refl n).samePlace f⟩

/-- The response of the node itself: a success makes the leader guess that it has the
whole log, a failure that it has one entry less. -/
structure Answered (n : Node Disk) (f : ℕ) (resp : AppendEntriesRes) (n' : Node Disk) : Prop where
  store : n'.store = n.store
  role : n'.role = .leader
  config : n'.config = n.config
  slots : n'.nextIndex.length = n.nextIndex.length
  next : n'.nextIndex.getD f 0 =
    if resp.success ≠ 0 then n.store.log.length else n.nextIndex.getD f 0 - 1
  sent : sentTo Rpc.entriesReq f n'.script = []

/-- A response of the leader's own term. -/
theorem handleAppendEntriesResponse_eq (env : Env) (srcId : ℕ) {resp : AppendEntriesRes}
    (hr : n.role = .leader) (hterm : resp.term = u32 (n.get .currentTerm)) :
    n.handleAppendEntriesResponse env srcId resp =
      if resp.success ≠ 0 then
        ((n.credit srcId resp).commitLoop (u32 (n.get .currentTerm)) n.logLength).applyToStateMachine
      else if n.nextIndex.getD srcId 0 > 0 then n.debit srcId
      else n := by
  rw [handleAppendEntriesResponse, if_neg (by omega), if_neg (by rw [hr]; simp [hterm])]
  rfl

theorem LeaderOf.response {f : ℕ} (h : n.LeaderOf f) (hidle : n.script = []) (env : Env)
    {resp : AppendEntriesRes} (hterm : resp.term = n.store.currentTerm) :
    Answered n f resp (n.handleAppendEntriesResponse env f resp) := by
  have hcur : resp.term = u32 (n.get .currentTerm) := by rw [hterm, u32_term h.term]
  have hstore := handleAppendEntriesResponse_store env n f hcur
  have hsent := ((Aside.idle hidle).handleAppendEntriesResponse env f resp).requestsTo f
  have hslot := h.slot
  rw [handleAppendEntriesResponse_eq env f h.role hcur] at hstore hsent ⊢
  split
  · rename_i hs
    rw [if_pos hs] at hstore hsent
    have hk := (commitLoop_idles (u32 (n.get .currentTerm)) n.logLength (n.credit f resp)).keeps
    refine ⟨hstore, hk.role.trans h.role, hk.config, ?_, ?_, hsent⟩ <;> rw [hk.nextIndex, credit]
    · exact List.length_set
    · rw [if_pos hs, logLength_eq h.length, u32_of_nat (by have := h.length; omega)]
      simp [hslot]
  · rename_i hs
    have hnone : sentTo Rpc.entriesReq f n.script = [] := by
      rw [hidle]
      rfl
    split
    · refine ⟨rfl, h.role, rfl, by simp [debit], ?_, hnone⟩
      rw [if_neg hs]
      simp [debit, hslot]
    · rename_i hzero
      refine ⟨rfl, h.role, rfl, rfl, ?_, hnone⟩
      rw [if_neg hs]
      omega

end Node

end GeoRaft
