import GeoRaft.Node.Later
import GeoRaft.Node.Silence

/-!
Terms that can be read back.

A term is a word of 32 bits on the wire and on the disk, and storage hands it out
as an `int` whose negative values are errors. A node stores whatever later term it
is told, so it may store one that it takes for an error ever after; the vote, which
goes through the same interface, can be lost in the same way.
-/

namespace GeoRaft

open Word

namespace Node

variable {n : Node Disk}

/-- The node becomes a follower of the term of the packet. -/
def Adopts (env : Env) (n : Node Disk) (pkt : Pkt) : Prop :=
  .note (.becameFollower pkt.rpc.term) ∈ (n.raftHandleRpc env pkt).script

instance (env : Env) (n : Node Disk) (pkt : Pkt) : Decidable (n.Adopts env pkt) :=
  inferInstanceAs (Decidable (_ ∈ _))

/-- Requests of the term or a later one get a response, those for entries as long as
the length of the log can be read. -/
structure AnswersFrom (n : Node Disk) (term : ℕ) : Prop where
  entries : 0 ≤ n.logLength → ∀ (env : Env) (req : AppendEntriesReq), term ≤ req.term →
    ∃ dst res, .send ⟨dst, n.config.id, .appendEntriesRes res⟩ ∈
      (n.rested.handleAppendEntriesRequest env req).script
  votes : ∀ (env : Env) (srcId : ℕ) (req : RequestVoteReq), term ≤ req.term →
    ∃ dst res, .send ⟨dst, n.config.id, .requestVoteRes res⟩ ∈
      (n.rested.handleRequestVoteRequest env srcId req).script

/-- The term the node has stored is read back as it is, and requests are answered. -/
structure Readable (n : Node Disk) (term : ℕ) : Prop where
  readBack : n.get .currentTerm = n.store.currentTerm
  answers : n.AnswersFrom term

/-- The vote a node gives to a packet whose term it adopts. -/
def voteFor (n : Node Disk) : Rpc → ℕ
  | .requestVoteReq req =>
    if n.logIsUpToDate req.lastLogIdx req.lastLogTerm then req.candidateId else pfNoVote
  | _ => pfNoVote

/-! ### What is on the disk after an adoption -/

theorem Idles.adopts {m n' : Node Disk} (h : Idles m n') {t : ℕ}
    (hmem : .note (.becameFollower t) ∈ n'.script) : .note (.becameFollower t) ∈ m.script :=
  h.quiet.note_mem trivial hmem

/-- Adopting is becoming a follower, and giving a vote at most. -/
theorem adopted_disk (env : Env) {pkt : Pkt} (hidle : n.script = []) (hterm : pkt.rpc.term < 2 ^ 32)
    (hcand : pkt.rpc.candidateId < 2 ^ 32) (h : n.Adopts env pkt) :
    (n.raftHandleRpc env pkt).store.currentTerm = pkt.rpc.term ∧
      (n.raftHandleRpc env pkt).store.votedFor = n.voteFor pkt.rpc ∧
      (n.raftHandleRpc env pkt).config = n.config := by
  have hno : ∀ {t : ℕ}, .note (.becameFollower t) ∉ n.script := by
    intro t hmem
    rw [hidle] at hmem
    cases hmem
  have hfollow : ∀ {t : ℕ} (leaderId : ℕ), t < 2 ^ 32 →
      (n.becomeFollower env t leaderId).store.currentTerm = t :=
    fun _ ht => u32_of_nat ht
  unfold Adopts at h
  unfold raftHandleRpc at h ⊢
  cases hrpc : pkt.rpc with
  | appendEntriesReq req =>
      rw [hrpc] at h hterm
      dsimp only [Rpc.term] at h hterm ⊢
      rcases handleAppendEntriesRequest_cases env n hterm with hsame | ⟨-, hf⟩ | ⟨-, -, hsame⟩
      · exact absurd (hsame.adopts h) hno
      · exact ⟨hf.quiet.currentTerm.trans (hfollow _ hterm),
          hf.quiet.votedFor.trans (becomeFollower_votedFor env n _ _), hf.keeps.config⟩
      · exact absurd (hsame.adopts h) hno
  | appendEntriesRes resp =>
      rw [hrpc] at h hterm
      dsimp only [Rpc.term] at h hterm ⊢
      rcases handleAppendEntriesResponse_cases env n pkt.src resp with
        ⟨-, heq⟩ | heq | ⟨-, -, ⟨-, hsame⟩ | ⟨-, -, heq⟩⟩
      · rw [heq]
        exact ⟨hfollow _ hterm, becomeFollower_votedFor env n _ _, rfl⟩
      · rw [heq] at h
        exact absurd h hno
      · exact absurd (hsame.adopts h) hno
      · rw [heq] at h
        exact absurd h hno
  | requestVoteReq req =>
      rw [hrpc] at h hterm hcand
      dsimp only [Rpc.term, Rpc.candidateId] at h hterm hcand ⊢
      rcases handleRequestVoteRequest_cases env n pkt.src req with hsame | ⟨-, heq⟩ | ⟨ht, heq⟩
      · exact absurd (hsame.adopts h) hno
      · rw [heq]
        have hup := @logIsUpToDate_congr n (n.becomeFollower env req.term pkt.src) rfl
          req.lastLogIdx req.lastLogTerm
        have hf := hfollow (t := req.term) pkt.src hterm
        have hv := becomeFollower_votedFor env n req.term pkt.src
        have hc : (n.becomeFollower env req.term pkt.src).config = n.config := rfl
        generalize n.becomeFollower env req.term pkt.src = m at hup hf hv hc ⊢
        rw [decideVote_unvoted env hv, hup, voteFor]
        split
        · exact ⟨hf, u32_of_nat hcand, hc⟩
        · exact ⟨hf, hv, hc⟩
      · rw [heq] at h
        rcases decideVote_cases env n (ht ▸ n.get_currentTerm_le) req with hsame | hg
        · exact absurd (hsame.adopts h) hno
        · rw [hg] at h
          have hscript : (n.grant env req.term req).script = n.script ++ _ ++ [_] := rfl
          rw [hscript, hidle] at h
          simp at h
  | requestVoteRes resp =>
      rw [hrpc] at h hterm
      dsimp only [Rpc.term] at h hterm ⊢
      rcases handleRequestVoteResponse_cases env n pkt.src resp with
        heq | ⟨-, -, heq⟩ | ⟨-, -, -, heq⟩
      · rw [heq] at h
        exact absurd h hno
      · rw [heq]
        exact ⟨hfollow _ hterm, becomeFollower_votedFor env n _ _, rfl⟩
      · rw [heq] at h
        split at h
        · -- a note, but of an election
          unfold becomeLeader at h
          dsimp only at h
          have hnote := (sendHeartbeats_quiet _).note_mem (e := .becameFollower resp.term) trivial h
          have hnote : .note (.becameFollower resp.term) ∈
            (n.countVote.note (.becameLeader (u32 (n.countVote.get .currentTerm)))).script := hnote
          rcases List.mem_append.mp hnote with hmem | hmem
          · exact absurd hmem hno
          · cases Effect.note.inj (List.mem_singleton.mp hmem)
        · exact absurd h hno
  | procReq req =>
      rw [hrpc] at h
      exact absurd ((handleProcRequest_idles n req pkt.src).adopts h) hno
  | procRes resp =>
      rw [hrpc] at h
      exact absurd h hno

/-! ### Answers -/

/-- A request that is not stale is answered. -/
theorem acceptAppendEntries_answers (env : Env) (n : Node Disk) (curTerm : ℕ)
    (req : AppendEntriesReq) (h : 0 ≤ n.logLength) :
    ∃ (m : Node Disk) (newMatch success : ℕ), m.config = n.config ∧
      n.acceptAppendEntries env curTerm req =
        m.sendAppendEntriesResponse req.leaderId curTerm newMatch success := by
  unfold acceptAppendEntries
  dsimp only
  generalize hm : setFaultDetectTimer env _ = m
  obtain ⟨hs, hc⟩ : m.store = n.store ∧ m.config = n.config := by
    subst hm
    split <;> exact ⟨rfl, rfl⟩
  have hlen : m.logLength = n.logLength := by rw [logLength, logLength, hs]
  rw [if_neg (by omega), ← hc]
  split
  · exact ⟨m, 0, 0, rfl, rfl⟩
  · have hcfg := (storeEntries_keeps (u32 (req.prevLogIdx + 1)) 0 m.logLength req.entries m).trans
      (advanceCommit_keeps _ req)
    exact ⟨_, _, _, hcfg.config, rfl⟩

theorem decideVote_answers (env : Env) (n : Node Disk) (curTerm : ℕ) (req : RequestVoteReq)
    (h : 0 ≤ n.get .votedFor) :
    ∃ (m : Node Disk) (granted : ℕ), m.config = n.config ∧
      n.decideVote env curTerm req = m.send req.candidateId (.requestVoteRes ⟨curTerm, granted⟩) := by
  rw [decideVote, if_neg (not_lt.mpr h)]
  dsimp only
  split
  · exact ⟨n, 0, rfl, rfl⟩
  · exact ⟨(n.set .votedFor req.candidateId
      (some (.vote curTerm req.candidateId))).setElectionTimer env, 1, rfl, rfl⟩

theorem rested_get (n : Node Disk) (f : PersistentField) : n.rested.get f = n.get f := by
  rw [get_eq, get_eq, rested]

theorem rested_logLength (n : Node Disk) : n.rested.logLength = n.logLength := by
  rw [logLength, logLength, rested]

/-- A node that can read its term answers, be the request stale or not. -/
theorem answers_entries {cur : ℕ} (hread : n.get .currentTerm = cur) (hlen : 0 ≤ n.logLength)
    (env : Env) (req : AppendEntriesReq) :
    ∃ dst res, .send ⟨dst, n.config.id, .appendEntriesRes res⟩ ∈
      (n.rested.handleAppendEntriesRequest env req).script := by
  have hbound := i32_lt n.store.currentTerm
  rw [← get_currentTerm, hread] at hbound
  have hcur : u32 (cur : ℤ) = cur := u32_of_nat (by omega)
  by_cases hstale : req.term < cur
  · have heq : n.rested.handleAppendEntriesRequest env req =
        n.rested.sendAppendEntriesResponse req.leaderId cur 0 0 := by
      rw [handleAppendEntriesRequest, rested_get, hread, if_neg (by omega), hcur, if_pos hstale]
    rw [heq, sendAppendEntriesResponse]
    exact ⟨_, _, send_mem n.rested _ _⟩
  have hhandle : ∃ m : Node Disk, m.logLength = n.logLength ∧ m.config = n.config ∧
      n.rested.handleAppendEntriesRequest env req = m.acceptAppendEntries env cur req := by
    rw [handleAppendEntriesRequest, rested_get, hread, if_neg (by omega)]
    dsimp only
    rw [hcur, if_neg hstale]
    split
    · refine ⟨n.rested.becomeFollower env req.term req.leaderId, ?_, rfl, rfl⟩
      rw [logLength, logLength, Disk.storage_length, Disk.storage_length, becomeFollower_log, rested]
    · exact ⟨{ n.rested with leaderId := req.leaderId }, rested_logLength n, rfl, rfl⟩
  obtain ⟨m, hlog, hcfg, heq⟩ := hhandle
  obtain ⟨m', newMatch, success, hcfg', heq'⟩ :=
    acceptAppendEntries_answers env m cur req (by omega)
  rw [heq, heq', ← hcfg, ← hcfg', sendAppendEntriesResponse]
  exact ⟨_, _, send_mem m' _ _⟩

theorem answers_votes {cur : ℕ} (hread : n.get .currentTerm = cur) (hvote : 0 ≤ n.get .votedFor)
    (env : Env) (srcId : ℕ) (req : RequestVoteReq) :
    ∃ dst res, .send ⟨dst, n.config.id, .requestVoteRes res⟩ ∈
      (n.rested.handleRequestVoteRequest env srcId req).script := by
  by_cases hstale : req.term < u32 (cur : ℤ)
  · have heq : n.rested.handleRequestVoteRequest env srcId req =
        n.rested.send req.candidateId (.requestVoteRes ⟨u32 (cur : ℤ), 0⟩) := by
      rw [handleRequestVoteRequest, rested_get, hread, if_neg (by omega), if_pos hstale]
    rw [heq]
    exact ⟨_, _, send_mem n.rested _ _⟩
  have hhandle : ∃ (m : Node Disk) (curTerm : ℕ), 0 ≤ m.get .votedFor ∧ m.config = n.config ∧
      n.rested.handleRequestVoteRequest env srcId req = m.decideVote env curTerm req := by
    rw [handleRequestVoteRequest, rested_get, hread, if_neg (by omega)]
    dsimp only
    rw [if_neg hstale]
    split
    · refine ⟨n.rested.becomeFollower env req.term srcId, req.term, ?_, rfl, rfl⟩
      rw [get_votedFor, becomeFollower_votedFor, i32_of_nat (by decide)]
      omega
    · exact ⟨n.rested, u32 cur, by rwa [rested_get], rfl, rfl⟩
  obtain ⟨m, curTerm, hv, hcfg, heq⟩ := hhandle
  obtain ⟨m', granted, hcfg', heq'⟩ := decideVote_answers env m curTerm req hv
  rw [heq, heq', ← hcfg, ← hcfg']
  exact ⟨_, _, send_mem m' _ _⟩

theorem readable_of_usable {t : ℕ} (h : Usable t n.store) : n.Readable t where
  readBack := usable_get_term h
  answers := {
    entries := fun hlen env req _ => answers_entries (usable_get_term h) hlen env req
    votes := fun env srcId req _ => by
      have hvote := usable_get_vote h
      exact answers_votes (usable_get_term h) (by omega) env srcId req }

theorem Readable.term_lt {t : ℕ} (h : n.Readable t) : n.store.currentTerm < 2 ^ 31 := by
  have hbound := i32_lt n.store.currentTerm
  have hread := h.readBack
  rw [get_currentTerm] at hread
  omega

/-- A node that reads an error for its vote drops every request of its own term. -/
theorem Readable.vote_lt {t : ℕ} (h : n.Readable t) (hle : t ≤ n.store.currentTerm)
    (hv : n.store.votedFor < 2 ^ 32) : n.store.votedFor < 2 ^ 31 := by
  have hlt := h.term_lt
  have hvote : 0 ≤ n.get .votedFor := by
    by_contra hneg
    obtain ⟨dst, res, hmem⟩ := h.answers.votes ⟨0, 0⟩ 0 ⟨n.store.currentTerm, 0, 0, 0⟩ hle
    have hcur : u32 (n.store.currentTerm : ℤ) = n.store.currentTerm := u32_of_nat (by omega)
    have hnone : n.rested.handleRequestVoteRequest ⟨0, 0⟩ 0 ⟨n.store.currentTerm, 0, 0, 0⟩ =
        n.rested := by
      rw [handleRequestVoteRequest, rested_get, h.readBack, if_neg (by omega)]
      dsimp only
      rw [hcur, if_neg (lt_irrefl _), if_neg (lt_irrefl _), decideVote, rested_get,
        if_pos (not_le.mp hneg)]
    rw [hnone, rested] at hmem
    cases hmem
  rw [get_votedFor] at hvote
  exact (i32_nonneg_iff hv).mp hvote

theorem voteFor_lt (n : Node Disk) {rpc : Rpc} (hcand : rpc.candidateId < 2 ^ 32) :
    n.voteFor rpc < 2 ^ 32 := by
  unfold voteFor
  split
  · split
    · exact hcand
    · decide
  · decide

/-- No vote is a number without the sign bit too. -/
theorem voteFor_lt_iff {rpc : Rpc} : n.voteFor rpc < 2 ^ 31 ↔ ∀ req, rpc = .requestVoteReq req →
    n.logIsUpToDate req.lastLogIdx req.lastLogTerm = true → req.candidateId < 2 ^ 31 := by
  unfold voteFor
  constructor
  · rintro hlt req rfl hup
    dsimp only at hlt
    rwa [if_pos hup] at hlt
  · intro hall
    split
    · rename_i req
      split
      · rename_i hup
        exact hall req rfl hup
      · decide
    · decide

/-- The first heartbeat of this term, for node 1. -/
def heartbeatOf (term : ℕ) : AppendEntriesReq := ⟨term, 0, 4294967295, 0, -1, []⟩

/-- Node 2 asks for a vote in this term, of node 1. -/
def voteRequestOf (term : ℕ) : Pkt := ⟨1, 2, .requestVoteReq ⟨term, 2, 4294967295, 0⟩⟩

end Node

end GeoRaft
