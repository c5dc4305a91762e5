import GeoRaft.Node.Commit
import GeoRaft.Node.Effects
import GeoRaft.Node.InRange

/-!
Terms on responses, and what a later term does to a node.

All handlers but one answer in the term the node has stored by then. The handler
of `AppendEntries` requests answers in the term it read at its beginning, which
is out of date once the request has made the node a follower of a later term.
A later term in turn makes a follower of every node but one: a node that is not
a candidate drops a vote before it looks at the term.
-/

namespace GeoRaft

open Word

/-- The term of a response. -/
def Rpc.responseTerm : Rpc → Option ℕ
  | .appendEntriesRes res => some res.term
  | .requestVoteRes res => some res.term
  | .procRes res => some res.term
  | _ => none

/-- A packet that answers does so in the persisted term. -/
def Carries (d : Disk) (pkt : Pkt) : Prop := ∀ t, pkt.rpc.responseTerm = some t → t = d.currentTerm

theorem carries_of_none {d : Disk} {pkt : Pkt} (h : pkt.rpc.responseTerm = none) : Carries d pkt := by
  intro t ht
  rw [h] at ht
  cases ht

theorem carries_of_some {d : Disk} {pkt : Pkt} (h : pkt.rpc.responseTerm = some d.currentTerm) :
    Carries d pkt := by
  intro t ht
  rw [h] at ht
  exact (Option.some.inj ht).symm

namespace Node

variable {P : Disk → Pkt → Prop} {s : Disk} {n : Node Disk}

/-- A term below `2 ^ 32` is the one `get` returns, once converted. -/
theorem u32_get_currentTerm (h : n.store.currentTerm < 2 ^ 32) :
    u32 (n.get .currentTerm) = n.store.currentTerm := by
  rw [get_currentTerm, u32_i32, u32_of_nat h]

theorem becomeFollower_currentTerm (env : Env) (n : Node Disk) (term leaderId : ℕ) :
    (n.becomeFollower env term leaderId).store.currentTerm = u32 term := rfl

theorem becomeFollower_log (env : Env) (n : Node Disk) (term leaderId : ℕ) :
    (n.becomeFollower env term leaderId).store.log = n.store.log := rfl

theorem becomeFollower_term_role (env : Env) (n : Node Disk) {term : ℕ} (h : term < 2 ^ 31)
    (leaderId : ℕ) : (n.becomeFollower env term leaderId).store.currentTerm = term ∧
      (n.becomeFollower env term leaderId).role = .follower := by
  rw [becomeFollower_currentTerm, u32_of_nat (by omega)]
  exact ⟨rfl, rfl⟩

theorem commitLoop_speaks (curTerm : ℕ) (logLen : ℤ) (h : Speaks P s n) :
    Speaks P s (n.commitLoop curTerm logLen) := by
  unfold commitLoop
  refine foldl_range_induct (motive := fun _ m => Speaks P s m) _ h fun k m _ hm => ?_
  unfold tryCommit
  split
  · exact hm
  · split
    · exact (hm.note _).mem rfl rfl
    · exact hm

theorem sendHeartbeats_speaks (h : Speaks P s n)
    (hP : ∀ dst req, P n.store ⟨dst, n.config.id, .appendEntriesReq req⟩) :
    Speaks P s n.sendHeartbeats := by
  unfold sendHeartbeats
  split
  · exact h
  · exact h.forOthers fun _ _ _ _ => hP _ _

theorem broadcastAppendEntries_speaks (h : Speaks P s n)
    (hP : ∀ dst req, P n.store ⟨dst, n.config.id, .appendEntriesReq req⟩) :
    Speaks P s n.broadcastAppendEntries := by
  unfold broadcastAppendEntries
  split
  · exact h
  · exact h.forOthers fun _ _ _ _ => hP _ _

/-- The request is answered, in the term it was compared with, after the log was
dealt with. -/
theorem acceptAppendEntries_speaks (env : Env) (curTerm : ℕ) (req : AppendEntriesReq)
    (h : Speaks P s n) (hlen : n.store.log.length < 2 ^ 31)
    (hP : ∀ m, Quiet n m → ∀ dst (res : ProcRes), res.term = u32 (m.get .currentTerm) →
      P m.store ⟨dst, m.config.id, .procRes res⟩) :
    ∃ m newMatch success, Speaks P s m ∧ Quiet n m ∧ n.acceptAppendEntries env curTerm req =
      m.sendAppendEntriesResponse req.leaderId curTerm newMatch success := by
  unfold acceptAppendEntries
  dsimp only
  generalize hm : setFaultDetectTimer env _ = m
  obtain ⟨hs, hmem, hq⟩ : m.store = n.store ∧ Speaks P s m ∧ Quiet n m := by
    subst hm
    split
    · exact ⟨rfl, h.mem rfl rfl, .mem rfl rfl rfl rfl rfl⟩
    · exact ⟨rfl, h.mem rfl rfl, .mem rfl rfl rfl rfl rfl⟩
  rw [if_neg (by rw [logLength_eq (by rwa [hs])]; omega)]
  split
  · exact ⟨m, 0, 0, hmem, hq, rfl⟩
  · refine ⟨_, _, _, ?_, ?_, rfl⟩
    · have hstored := storeEntries_speaks (u32 (req.prevLogIdx + 1)) 0 m.logLength req.entries hmem
      have hstoredq := hq.trans
        (storeEntries_quiet (u32 (req.prevLogIdx + 1)) 0 m.logLength req.entries m)
      generalize storeEntries (u32 (req.prevLogIdx + 1)) 0 m.logLength req.entries m = m'
        at hstored hstoredq ⊢
      rw [advanceCommit_eq]
      split
      · have hcommit := hstored.mem (m'.committing_script req) (m'.committing_store req)
        refine hcommit.applyToStateMachine fun dst res hres => ?_
        rw [committing_store, committing_config]
        refine hP m' hstoredq dst res ?_
        rw [hres, get_eq, get_eq, committing_store]
      · exact hstored
    · exact hq.trans ((storeEntries_quiet _ _ _ _ m).trans (advanceCommit_quiet _ _))

theorem decideVote_speaks (env : Env) {curTerm : ℕ} {req : RequestVoteReq} (h : Speaks Carries s n)
    (hcur : curTerm = n.store.currentTerm) : Speaks Carries s (n.decideVote env curTerm req) := by
  unfold decideVote
  dsimp only
  split
  · exact h
  split
  · refine h.send (carries_of_some ?_)
    rw [hcur]
    rfl
  · have hset := (h.set .votedFor req.candidateId
      (some (.vote curTerm req.candidateId))).setElectionTimer env
    refine hset.send (carries_of_some ?_)
    rw [setElectionTimer_store, set_store, Disk.set_votedFor, hcur]
    rfl

/-! ### Handlers -/

theorem carries_procRes {m : Node Disk} (h : m.store.currentTerm < 2 ^ 32) (dst : ℕ) (res : ProcRes)
    (hres : res.term = u32 (m.get .currentTerm)) :
    Carries m.store ⟨dst, m.config.id, .procRes res⟩ := by
  refine carries_of_some ?_
  rw [Rpc.responseTerm, hres, u32_get_currentTerm h]

/-- A request of the node's own term is answered in that term. -/
theorem acceptAppendEntries_carries (env : Env) {req : AppendEntriesReq} (h : Speaks Carries s n)
    (hterm : n.store.currentTerm < 2 ^ 31) (hlen : n.store.log.length < 2 ^ 31) :
    Speaks Carries s (n.acceptAppendEntries env n.store.currentTerm req) := by
  obtain ⟨m, newMatch, success, hm, hq, heq⟩ := acceptAppendEntries_speaks env
    n.store.currentTerm req h hlen fun m hq => carries_procRes (by rw [hq.currentTerm]; omega)
  rw [heq]
  refine hm.send (carries_of_some ?_)
  rw [hq.currentTerm]
  rfl

theorem handleAppendEntriesRequest_speaks (env : Env) {req : AppendEntriesReq}
    (h : Speaks Carries s n) (hterm : n.store.currentTerm < 2 ^ 31)
    (hlen : n.store.log.length < 2 ^ 31) (hreq : req.term ≤ n.store.currentTerm) :
    Speaks Carries s (n.handleAppendEntriesRequest env req) := by
  unfold handleAppendEntriesRequest
  dsimp only
  rw [u32_get_currentTerm (by omega)]
  split
  · exact h
  split
  · exact h.send (carries_of_some rfl)
  split
  · -- a candidate of the same term
    have hsame : req.term = n.store.currentTerm := by omega
    have hf := h.becomeFollower env req.term req.leaderId
    have hft : (n.becomeFollower env req.term req.leaderId).store.currentTerm =
        n.store.currentTerm := by
      rw [becomeFollower_currentTerm, u32_of_nat (by omega), hsame]
    have hfl := becomeFollower_log env n req.term req.leaderId
    generalize n.becomeFollower env req.term req.leaderId = m at hf hft hfl ⊢
    rw [← hft]
    exact acceptAppendEntries_carries env hf (by omega) (by rwa [hfl])
  · exact acceptAppendEntries_carries (n := { n with leaderId := req.leaderId }) env
      (h.mem rfl rfl) hterm hlen

theorem handleAppendEntriesResponse_speaks (env : Env) (srcId : ℕ) (resp : AppendEntriesRes)
    (h : Speaks Carries s n) (hterm : n.store.currentTerm < 2 ^ 31) :
    Speaks Carries s (n.handleAppendEntriesResponse env srcId resp) := by
  unfold handleAppendEntriesResponse
  dsimp only
  split
  · exact h.becomeFollower env _ _
  split
  · exact h
  split
  · have hcredit : Speaks Carries s { n with
        matchIndex := n.matchIndex.set srcId (i32 resp.newMatchIndex)
        nextIndex := n.nextIndex.set srcId (u32 n.logLength) } := h.mem rfl rfl
    have hct : ({ n with
        matchIndex := n.matchIndex.set srcId (i32 resp.newMatchIndex)
        nextIndex := n.nextIndex.set srcId (u32 n.logLength) } : Node Disk).store.currentTerm =
          n.store.currentTerm := rfl
    generalize ({ n with
        matchIndex := n.matchIndex.set srcId (i32 resp.newMatchIndex)
        nextIndex := n.nextIndex.set srcId (u32 n.logLength) } : Node Disk) = m at hcredit hct ⊢
    generalize u32 (n.get .currentTerm) = curTerm
    refine (commitLoop_speaks curTerm n.logLength hcredit).applyToStateMachine (carries_procRes ?_)
    rw [(commitLoop_quiet curTerm n.logLength m).currentTerm, hct]
    omega
  split
  · exact h.mem rfl rfl
  · exact h

theorem handleRequestVoteRequest_speaks (env : Env) (srcId : ℕ) {req : RequestVoteReq}
    (h : Speaks Carries s n) (hterm : n.store.currentTerm < 2 ^ 31) (hreq : req.term < 2 ^ 32) :
    Speaks Carries s (n.handleRequestVoteRequest env srcId req) := by
  unfold handleRequestVoteRequest
  dsimp only
  rw [u32_get_currentTerm (by omega)]
  split
  · exact h
  split
  · exact h.send (carries_of_some rfl)
  split
  · refine decideVote_speaks env (h.becomeFollower env _ _) ?_
    rw [becomeFollower_currentTerm, u32_of_nat hreq]
  · exact decideVote_speaks env h rfl

theorem becomeLeader_speaks (env : Env) (h : Speaks Carries s n) :
    Speaks Carries s (n.becomeLeader env) := by
  have hnote := h.note (.becameLeader (u32 (n.get .currentTerm)))
  unfold becomeLeader
  dsimp only
  generalize n.note (.becameLeader (u32 (n.get .currentTerm))) = m at hnote ⊢
  refine sendHeartbeats_speaks ?_ fun _ _ => carries_of_none rfl
  exact hnote.mem rfl rfl

theorem handleRequestVoteResponse_speaks (env : Env) (srcId : ℕ) (resp : RequestVoteRes)
    (h : Speaks Carries s n) : Speaks Carries s (n.handleRequestVoteResponse env srcId resp) := by
  unfold handleRequestVoteResponse
  dsimp only
  split
  · exact h
  split
  · exact h.becomeFollower env _ _
  split
  · exact h
  split
  · split
    · exact becomeLeader_speaks env (h.mem rfl rfl)
    · exact h.mem rfl rfl
  · exact h

theorem handleProcRequest_speaks (srcId : ℕ) (req : ProcReq) (h : Speaks Carries s n)
    (hterm : n.store.currentTerm < 2 ^ 31) :
    Speaks Carries s (n.handleProcRequest req srcId) := by
  have happend : ∀ entry, Speaks Carries s (n.appendLogEntry entry) := fun entry => by
    unfold appendLogEntry
    dsimp only
    split
    · exact h
    · exact h.logWrite _ _ _
  have hrecord : ∀ (m : Node Disk) (logLen : ℤ), Speaks Carries s m →
      Speaks Carries s (m.recordOutstanding req logLen) := fun m logLen hm => by
    unfold recordOutstanding
    split
    · exact hm
    · exact hm.mem rfl rfl
  unfold handleProcRequest
  dsimp only
  split
  · exact h.send (carries_procRes (by omega) _ _ rfl)
  · exact broadcastAppendEntries_speaks (hrecord _ _ (happend _)) fun _ _ => carries_of_none rfl

/-- Every handler but the one of `AppendEntries` requests answers in the stored term. -/
theorem raftHandleRpc_speaks (env : Env) (h : Speaks Carries s n)
    (hterm : n.store.currentTerm < 2 ^ 31) (hlen : n.store.log.length < 2 ^ 31) {pkt : Pkt}
    (hpkt : pkt.rpc.term < 2 ^ 32)
    (hold : ∀ req, pkt.rpc = .appendEntriesReq req → req.term ≤ n.store.currentTerm) :
    Speaks Carries s (n.raftHandleRpc env pkt) := by
  unfold raftHandleRpc
  cases hrpc : pkt.rpc with
  | appendEntriesReq req =>
      exact handleAppendEntriesRequest_speaks env h hterm hlen (hold req hrpc)
  | appendEntriesRes resp => exact handleAppendEntriesResponse_speaks env _ resp h hterm
  | requestVoteReq req =>
      rw [hrpc] at hpkt
      exact handleRequestVoteRequest_speaks env _ h hterm hpkt
  | requestVoteRes resp => exact handleRequestVoteResponse_speaks env _ resp h
  | procReq req => exact handleProcRequest_speaks _ req h hterm
  | procRes resp => exact h

/-- A node answers in the term it has stored, exactly if it was not given an
`AppendEntries` request of a later term. -/
theorem responses_carry_term (env : Env) {pkt : Pkt} (hidle : n.script = [])
    (hterm : n.store.currentTerm < 2 ^ 31) (hlen : n.store.log.length < 2 ^ 31)
    (hpkt : pkt.rpc.term < 2 ^ 32) :
    EverySend Carries n.store (n.raftHandleRpc env pkt).script ↔
      ¬∃ req, pkt.rpc = .appendEntriesReq req ∧ n.store.currentTerm < req.term := by
  constructor
  · rintro hsends ⟨req, hreq, hlt⟩
    rw [hreq] at hpkt
    change req.term < 2 ^ 32 at hpkt
    have hf : Speaks (fun _ _ => True) n.store (n.becomeFollower env req.term req.leaderId) :=
      (speaks_of_idle hidle).becomeFollower env _ _
    obtain ⟨m, newMatch, success, hm, hq, heq⟩ := acceptAppendEntries_speaks env
      n.store.currentTerm req hf hlen fun _ _ _ _ _ => trivial
    have hscript : (n.raftHandleRpc env pkt).script = m.script ++
        [.send ⟨req.leaderId, m.config.id,
          .appendEntriesRes ⟨n.store.currentTerm, newMatch, success⟩⟩] := by
      unfold raftHandleRpc handleAppendEntriesRequest
      rw [hreq]
      dsimp only
      rw [u32_get_currentTerm (by omega), get_currentTerm, i32_of_nat (by omega),
        if_neg (by omega), if_neg (by omega), if_pos (.inl hlt), heq]
      rfl
    -- the answer is in the old term, after the new one was stored
    have hcarry := hsends _ _ [] hscript n.store.currentTerm rfl
    rw [hm.store, hq.currentTerm, becomeFollower_currentTerm, u32_of_nat hpkt] at hcarry
    omega
  · intro hnot
    refine (raftHandleRpc_speaks env (speaks_of_idle hidle) hterm hlen hpkt fun req hreq => ?_).sends
    by_contra hlt
    exact hnot ⟨req, hreq, by omega⟩

/-- A follower of term 3 grants a vote of term 5, and answers so. -/
theorem responses_carry_term_five :
    EverySend Carries ⟨3, pfNoVote, []⟩
      ((raftCreate (.plain 3 1) ⟨3, pfNoVote, []⟩).raftHandleRpc ⟨0, 0⟩
        ⟨1, 2, .requestVoteReq ⟨5, 2, 4294967295, 0⟩⟩).script :=
  (responses_carry_term ⟨0, 0⟩ rfl (by decide) (by decide) (by decide)).mpr
    (by rintro ⟨req, hreq, -⟩; cases hreq)

/-- A new node answers the first heartbeat of term 1 in term 0. -/
theorem response_of_old_term : ∃ pre pkt post t,
    ((raftCreate (.plain 3 1) Disk.init).raftHandleRpc ⟨0, 0⟩
      ⟨1, 0, .appendEntriesReq ⟨1, 0, 4294967295, 0, -1, []⟩⟩).script = pre ++ .send pkt :: post ∧
    pkt.rpc.responseTerm = some t ∧ t ≠ (storeAfter Disk.init pre).currentTerm := by
  refine ⟨[.note (.becameFollower 1), .store ⟨1, pfNoVote, []⟩ none,
    .store ⟨1, pfNoVote, []⟩ none], ⟨0, 1, .appendEntriesRes ⟨0, 4294967295, 1⟩⟩, [], 0, ?_, ?_, ?_⟩
  · decide +kernel
  · rfl
  · decide

/-! ### A later term -/

theorem decideVote_term_role (env : Env) (n : Node Disk) (curTerm : ℕ) (req : RequestVoteReq) :
    (n.decideVote env curTerm req).store.currentTerm = n.store.currentTerm ∧
      (n.decideVote env curTerm req).role = n.role := by
  generalize hm : n.decideVote env curTerm req = m
  unfold decideVote at hm
  dsimp only at hm
  split at hm
  · exact hm ▸ ⟨rfl, rfl⟩
  split at hm
  · exact hm ▸ ⟨rfl, rfl⟩
  · rw [← hm]
    simp only [send, setElectionTimer, set, put, Disk.set_votedFor, and_self]

/-- A packet of a later term makes the node a follower of that term, unless it is a
vote and the node is no candidate. -/
theorem higher_term_wins (env : Env) {pkt : Pkt} (hlt : n.store.currentTerm < pkt.rpc.term)
    (hpkt : pkt.rpc.term < 2 ^ 31) :
    ((n.raftHandleRpc env pkt).store.currentTerm = pkt.rpc.term ∧
      (n.raftHandleRpc env pkt).role = .follower) ↔
      ¬(n.role ≠ .candidate ∧ ∃ resp, pkt.rpc = .requestVoteRes resp) := by
  have hcur : u32 (n.get .currentTerm) = n.store.currentTerm := u32_get_currentTerm (by omega)
  have hnonneg : ¬n.get .currentTerm < 0 := by
    rw [get_currentTerm, i32_of_nat (by omega)]
    omega
  unfold raftHandleRpc
  cases hrpc : pkt.rpc with
  | appendEntriesReq req =>
      rw [hrpc, Rpc.term] at hlt hpkt
      refine iff_of_true ?_ (by rintro ⟨-, resp, hresp⟩; cases hresp)
      have heq : n.handleAppendEntriesRequest env req =
          (n.becomeFollower env req.term req.leaderId).acceptAppendEntries env
            n.store.currentTerm req := by
        rw [handleAppendEntriesRequest, hcur, if_neg hnonneg, if_neg (by omega), if_pos (.inl hlt)]
      dsimp only [Rpc.term]
      rw [heq]
      obtain ⟨hft, hfr⟩ := becomeFollower_term_role env n hpkt req.leaderId
      generalize n.becomeFollower env req.term req.leaderId = m at hft hfr ⊢
      have hq : Quiet m (m.acceptAppendEntries env n.store.currentTerm req) :=
        acceptAppendEntries_quiet env m (by omega) req
      exact ⟨hq.currentTerm.trans hft, hq.role.trans hfr⟩
  | appendEntriesRes resp =>
      rw [hrpc, Rpc.term] at hlt hpkt
      refine iff_of_true ?_ (by rintro ⟨-, resp, hresp⟩; cases hresp)
      have heq : n.handleAppendEntriesResponse env pkt.src resp =
          n.becomeFollower env resp.term pkt.src := by
        rw [handleAppendEntriesResponse, hcur, if_pos hlt]
      dsimp only [Rpc.term]
      rw [heq]
      exact becomeFollower_term_role env n hpkt pkt.src
  | requestVoteReq req =>
      rw [hrpc, Rpc.term] at hlt hpkt
      refine iff_of_true ?_ (by rintro ⟨-, resp, hresp⟩; cases hresp)
      have heq : n.handleRequestVoteRequest env pkt.src req =
          (n.becomeFollower env req.term pkt.src).decideVote env req.term req := by
        rw [handleRequestVoteRequest, hcur, if_neg hnonneg, if_neg (by omega), if_pos hlt]
      dsimp only [Rpc.term]
      rw [heq]
      obtain ⟨hft, hfr⟩ := becomeFollower_term_role env n hpkt pkt.src
      generalize n.becomeFollower env req.term pkt.src = m at hft hfr ⊢
      obtain ⟨hterm, hrole⟩ := decideVote_term_role env m req.term req
      exact ⟨hterm.trans hft, hrole.trans hfr⟩
  | requestVoteRes resp =>
      rw [hrpc, Rpc.term] at hlt hpkt
      dsimp only [Rpc.term]
      by_cases hr : n.role = .candidate
      · have heq : n.handleRequestVoteResponse env pkt.src resp =
            n.becomeFollower env resp.term pkt.src := by
          rw [handleRequestVoteResponse, if_neg (not_not.mpr hr), hcur, if_pos hlt]
        rw [heq]
        exact iff_of_true (becomeFollower_term_role env n hpkt pkt.src) fun h => h.1 hr
      · -- the node is no candidate and keeps its term
        have heq : n.handleRequestVoteResponse env pkt.src resp = n := by
          rw [handleRequestVoteResponse, if_pos hr]
        rw [heq]
        refine iff_of_false (fun h => ?_) fun h => h ⟨hr, resp, rfl⟩
        have hsame : n.store.currentTerm = resp.term := h.1
        omega
  | procReq req =>
      rw [hrpc] at hlt
      exact absurd hlt (Nat.not_lt_zero _)
  | procRes resp =>
      rw [hrpc] at hlt
      exact absurd hlt (Nat.not_lt_zero _)

/-- A leader steps down at the refusal of its entries by a node of a later term. -/
theorem higher_term_wins_leader :
    let n : Node Disk :=
      { raftCreate (.plain 3 0) ⟨1, 0, []⟩ with role := .leader }
    (n.raftHandleRpc ⟨0, 0⟩ ⟨0, 1, .appendEntriesRes ⟨2, 0, 0⟩⟩).store.currentTerm = 2 ∧
      (n.raftHandleRpc ⟨0, 0⟩ ⟨0, 1, .appendEntriesRes ⟨2, 0, 0⟩⟩).role = .follower :=
  (higher_term_wins ⟨0, 0⟩ (by decide) (by decide)).mpr
    (by rintro ⟨-, resp, hresp⟩; cases hresp)

/-- A follower of term 0 that is told of term 7 in a vote stays where it is. -/
theorem higher_term_dropped :
    let n : Node Disk := raftCreate (.plain 3 0) Disk.init
    (n.raftHandleRpc ⟨0, 0⟩ ⟨0, 1, .requestVoteRes ⟨7, 0⟩⟩).store.currentTerm = 0 := by
  decide +kernel

end Node

end GeoRaft
