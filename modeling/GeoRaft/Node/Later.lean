import GeoRaft.Node.Candidacy
import GeoRaft.Node.Responses

/-!
A node from some moment on, as long as nothing it stores has the sign bit.

Term and vote leave storage as an `int`. What a handler stores is the term of a
packet, the next term and the node's own id, or the id of a candidate; while these
are below `2 ^ 31`, so are the two numbers on the disk, whatever else happens to
the node and wherever it is started again.
-/

namespace GeoRaft

open Word

/-- Both numbers come back from the disk as they are, and the term is this one or a
later one. -/
structure Usable (t : ℕ) (d : Disk) : Prop where
  le : t ≤ d.currentTerm
  term : d.currentTerm < 2 ^ 31
  vote : d.votedFor < 2 ^ 31

namespace Node

variable {t : ℕ} {n n' : Node Disk}

/-- The term of the message is new to the node, and the node stores it. -/
def TakesTerm (n : Node Disk) : Rpc → Prop
  | .appendEntriesReq req => n.store.currentTerm < req.term
  | .appendEntriesRes res => n.store.currentTerm < res.term
  | .requestVoteReq req => n.store.currentTerm < req.term
  | .requestVoteRes res => n.role = .candidate ∧ n.store.currentTerm < res.term
  | .procReq _ | .procRes _ => False

/-- The node grants the vote, and has not stored it before. -/
def TakesVote (n : Node Disk) : Rpc → Prop
  | .requestVoteReq req => n.logIsUpToDate req.lastLogIdx req.lastLogTerm = true ∧
      (n.store.currentTerm < req.term ∨
        n.store.currentTerm = req.term ∧ n.store.votedFor = pfNoVote)
  | _ => False

/-- The timeout makes the node stand for election. -/
def Stands (env : Env) (n : Node Disk) : Prop :=
  n.role = .candidate ∨ n.role = .follower ∧
    ((n.config.timeoutScheme = .timeout ∨
        n.heartbeatTelemetry.numIntervals < n.heartbeatTelemetry.rampSize) ∨
      n.heartbeatTelemetry.checkLeaderFailure env = true)

/-- What the input makes the node store comes back as it is. -/
def Storable (n : Node Disk) : Input → Prop
  | .packet _ pkt => pkt.dst = n.config.id →
      (n.TakesTerm pkt.rpc → pkt.rpc.term < 2 ^ 31) ∧
        (n.TakesVote pkt.rpc → pkt.rpc.candidateId < 2 ^ 31)
  | .timeout env => n.Stands env → n.store.currentTerm + 1 < 2 ^ 31 ∧ u32 n.config.id < 2 ^ 31

/-- The node, once the effects of its last handler are carried out. -/
def rested (n : Node Disk) : Node Disk := { n with script := [] }

/-- The node after one more move, with nothing left to do. -/
def after (n : Node Disk) (m : Move) : Node Disk :=
  ((⟨n, [], []⟩ : Life).move n.config m).node

/-- What may become of the node, as long as what it stores comes back and no response
makes it write outside its tables. -/
inductive Later (n : Node Disk) : Node Disk → Prop
  | rested : Later n n.rested
  | restart {n' : Node Disk} (h : Later n n') : Later n (raftCreate n'.config n'.store)
  | move {n' : Node Disk} {m : Move} (h : Later n n') (hwf : m.input.WellFormed)
      (hin : ¬m.input.Strays n') (hok : n'.Storable m.input) : Later n (n'.after m)

/-! ### What a handler writes -/

/-- The disk is usable, and was after every write of the handler. -/
structure Writes (t : ℕ) (n : Node Disk) : Prop where
  now : Usable t n.store
  ever : ∀ d event, .store d event ∈ n.script → Usable t d

theorem writes_of_idle (hidle : n.script = []) (h : Usable t n.store) : Writes t n where
  now := h
  ever d event hmem := by
    rw [hidle] at hmem
    cases hmem

theorem Writes.mem (h : Writes t n) (hs : n'.script = n.script) (hd : n'.store = n.store) :
    Writes t n' where
  now := hd ▸ h.now
  ever := by
    rw [hs]
    exact h.ever

theorem Writes.put (h : Writes t n) {d : Disk} (hd : Usable t d) (event : Option Event) :
    Writes t (n.put d event) where
  now := hd
  ever d' event' hmem := by
    rcases List.mem_append.mp hmem with hmem | hmem
    · exact h.ever d' event' hmem
    · cases List.mem_singleton.mp hmem
      exact hd

/-- An effect that writes nothing. -/
theorem Writes.effect (h : Writes t n) {e : Effect Disk} (hs : n'.script = n.script ++ [e])
    (hd : n'.store = n.store) (he : ∀ d event, e ≠ .store d event) : Writes t n' where
  now := hd ▸ h.now
  ever d event hmem := by
    rw [hs] at hmem
    rcases List.mem_append.mp hmem with hmem | hmem
    · exact h.ever d event hmem
    · exact absurd (List.mem_singleton.mp hmem).symm (he d event)

theorem Writes.note (h : Writes t n) (event : Event) : Writes t (n.note event) :=
  h.effect rfl rfl (by simp)

theorem Writes.send (h : Writes t n) (dst : ℕ) (rpc : Rpc) : Writes t (n.send dst rpc) :=
  h.effect rfl rfl (by simp)

theorem Writes.setElectionTimer (h : Writes t n) (env : Env) : Writes t (n.setElectionTimer env) :=
  h.mem rfl rfl

theorem Writes.quiet (h : Writes t n) (hq : Quiet n n') : Writes t n' := by
  induction hq with
  | refl => exact h
  | tail _ hs ih =>
      cases hs with
      | mem hs hd => exact ih.mem hs hd
      | put ht hv =>
          exact ih.put ⟨ht ▸ ih.now.le, ht ▸ ih.now.term, hv ▸ ih.now.vote⟩ _
      | send => exact ih.send _ _
      | note => exact ih.note _
      | exit => exact ih.effect rfl rfl (by simp)

theorem Writes.setTerm (h : Writes t n) {term : ℕ} (hle : t ≤ term) (hlt : term < 2 ^ 31) :
    Writes t (n.set .currentTerm term) := by
  rw [set, Disk.set_currentTerm, u32_of_nat (by omega)]
  have hd : Usable t { n.store with currentTerm := term } := ⟨hle, hlt, h.now.vote⟩
  exact h.put hd none

theorem Writes.setVote (h : Writes t n) {vote : ℕ} (hlt : u32 vote < 2 ^ 31)
    (event : Option Event) : Writes t (n.set .votedFor vote event) := by
  rw [set, Disk.set_votedFor]
  have hd : Usable t { n.store with votedFor := u32 vote } := ⟨h.now.le, h.now.term, hlt⟩
  exact h.put hd event

/-! ### The transitions -/

theorem becomeFollower_writes (h : Writes t n) (env : Env) {term : ℕ} (hle : t ≤ term)
    (hlt : term < 2 ^ 31) (leaderId : ℕ) : Writes t (n.becomeFollower env term leaderId) := by
  have hterm := (h.note (.becameFollower term)).setTerm hle hlt
  unfold becomeFollower
  dsimp only
  generalize (n.note (.becameFollower term)).set .currentTerm term = m at hterm ⊢
  have hdemote : Writes t { m with role := .follower, leaderId := leaderId } := hterm.mem rfl rfl
  have hnone : u32 pfNoVote < 2 ^ 31 := by
    rw [u32_of_nat (by decide)]
    decide
  exact (hdemote.setVote hnone none).mem rfl rfl

theorem broadcastRequestVote_writes (h : Writes t n) : Writes t n.broadcastRequestVote := by
  unfold broadcastRequestVote
  dsimp only
  split
  · exact h
  · refine forOthers_induct (motive := fun _ m => Writes t m) n h fun k m _ hm => ?_
    split
    · exact hm
    · exact hm.send _ _

theorem startElection_writes (h : Writes t n) (env : Env) (hterm : n.store.currentTerm + 1 < 2 ^ 31)
    (hid : u32 n.config.id < 2 ^ 31) : Writes t (n.startElection env) := by
  rw [startElection_eq env n h.now.term]
  have hset := (h.setTerm (Nat.le_succ_of_le h.now.le) hterm).setVote hid
    (some (.vote (n.store.currentTerm + 1) n.config.id))
  generalize (n.set .currentTerm (n.store.currentTerm + 1)).set .votedFor n.config.id _ = m
    at hset ⊢
  have hvotes : Writes t { m with votesReceived := 1 } := hset.mem rfl rfl
  exact broadcastRequestVote_writes (hvotes.setElectionTimer env)

theorem becomeLeader_writes (h : Writes t n) (env : Env) : Writes t (n.becomeLeader env) := by
  have hnote := h.note (.becameLeader (u32 (n.get .currentTerm)))
  unfold becomeLeader
  dsimp only
  generalize n.note (.becameLeader (u32 (n.get .currentTerm))) = m at hnote ⊢
  refine Writes.quiet ?_ (sendHeartbeats_quiet _)
  exact hnote.mem rfl rfl

theorem grant_writes (h : Writes t n) (env : Env) (curTerm : ℕ) {req : RequestVoteReq}
    (hlt : u32 req.candidateId < 2 ^ 31) : Writes t (n.grant env curTerm req) := by
  have hset := h.setVote hlt (some (.vote curTerm req.candidateId))
  exact (hset.setElectionTimer env).send _ _

/-! ### The term and the vote a handler finds -/

theorem usable_get_term (h : Usable t n.store) : n.get .currentTerm = n.store.currentTerm := by
  rw [get_currentTerm, i32_of_nat h.term]

theorem usable_get_vote (h : Usable t n.store) : n.get .votedFor = n.store.votedFor := by
  rw [get_votedFor, i32_of_nat h.vote]

theorem usable_u32_term (h : Usable t n.store) : u32 (n.get .currentTerm) = n.store.currentTerm := by
  rw [usable_get_term h]
  exact u32_of_nat (by have := h.term; omega)

theorem becomeFollower_votedFor (env : Env) (n : Node Disk) (term leaderId : ℕ) :
    (n.becomeFollower env term leaderId).store.votedFor = pfNoVote := by
  show u32 pfNoVote = pfNoVote
  exact u32_of_nat (by decide)

theorem logIsUpToDate_congr {n' : Node Disk} (h : n'.store.log = n.store.log) (idx term : ℕ) :
    n'.logIsUpToDate idx term = n.logIsUpToDate idx term := by
  have hlen : n'.logLength = n.logLength := by
    rw [logLength, logLength, Disk.storage_length, Disk.storage_length, h]
  have hread : ∀ idx, n'.logRead idx = n.logRead idx := fun idx => by
    rw [logRead, logRead, Disk.storage_read, Disk.storage_read, Disk.read, Disk.read, h]
  rw [logIsUpToDate, logIsUpToDate, raftGetLogTerm, raftGetLogTerm, hlen, hread]

/-- A node without a vote gives it to the first candidate with a log as good as its own. -/
theorem decideVote_unvoted (env : Env) (hv : n.store.votedFor = pfNoVote) (curTerm : ℕ)
    (req : RequestVoteReq) : n.decideVote env curTerm req =
      if n.logIsUpToDate req.lastLogIdx req.lastLogTerm then n.grant env curTerm req
      else n.send req.candidateId (.requestVoteRes ⟨curTerm, 0⟩) := by
  have hget : n.get .votedFor = pfNoVote := by
    rw [get_votedFor, hv]
    exact i32_of_nat (by decide)
  rw [decideVote, hget, if_neg (by decide)]
  by_cases hup : n.logIsUpToDate req.lastLogIdx req.lastLogTerm = true
  · rw [if_neg (by simp [hup]), if_pos hup, grant]
  · rw [if_pos (.inr hup), if_neg hup]

/-! ### The handlers -/

theorem grant_currentTerm (env : Env) (n : Node Disk) (curTerm : ℕ) (req : RequestVoteReq) :
    (n.grant env curTerm req).store.currentTerm = n.store.currentTerm := by
  show (Storage.set .votedFor req.candidateId n.store).2.currentTerm = _
  rw [Disk.set_votedFor]

theorem grant_votedFor (env : Env) (n : Node Disk) (curTerm : ℕ) {req : RequestVoteReq}
    (hcand : req.candidateId < 2 ^ 32) :
    (n.grant env curTerm req).store.votedFor = req.candidateId := by
  show (Storage.set .votedFor req.candidateId n.store).2.votedFor = _
  rw [Disk.set_votedFor]
  exact u32_of_nat hcand

theorem decideVote_writes (h : Writes t n) (env : Env) (curTerm : ℕ) {req : RequestVoteReq}
    (hcand : n.logIsUpToDate req.lastLogIdx req.lastLogTerm = true →
      n.store.votedFor = pfNoVote → req.candidateId < 2 ^ 31) :
    Writes t (n.decideVote env curTerm req) := by
  by_cases hnone : n.store.votedFor = pfNoVote
  · rw [decideVote_unvoted env hnone]
    split
    · rename_i hup
      have hlt := hcand hup hnone
      exact grant_writes h env curTerm (by rwa [u32_of_nat (by omega)])
    · exact h.send _ _
  · have hvote := h.now.vote
    have hu : u32 (n.store.votedFor : ℤ) = n.store.votedFor := u32_of_nat (by omega)
    rw [decideVote, usable_get_vote h.now, if_neg (by omega)]
    dsimp only
    rw [hu]
    split
    · exact h.send _ _
    · rename_i hsame
      -- the vote it gave is given again
      have heq : n.store.votedFor = req.candidateId := by
        by_contra hne
        exact hsame (.inl ⟨by exact_mod_cast hnone, hne⟩)
      exact grant_writes h env curTerm (by rwa [← heq, hu])

theorem decideVote_currentTerm (env : Env) (n : Node Disk) {curTerm : ℕ}
    (h : curTerm ≤ n.store.currentTerm) (req : RequestVoteReq) :
    (n.decideVote env curTerm req).store.currentTerm = n.store.currentTerm := by
  rcases decideVote_cases env n h req with hsame | heq
  · exact hsame.quiet.currentTerm
  · rw [heq, grant_currentTerm]

/-- A packet that brings a new term: the node stores it first, whatever it does then. -/
theorem takes_term (h : Usable t n.store) (env : Env) (pkt : Pkt) (hterm : pkt.rpc.term < 2 ^ 32)
    (htakes : n.TakesTerm pkt.rpc) :
    (n.raftHandleRpc env pkt).store.currentTerm = pkt.rpc.term := by
  have hcur := usable_get_term h
  have hu := usable_u32_term h
  have hfollow : ∀ leaderId, (n.becomeFollower env pkt.rpc.term leaderId).store.currentTerm =
      pkt.rpc.term := fun leaderId => by
    rw [becomeFollower_currentTerm, u32_of_nat hterm]
  unfold raftHandleRpc
  cases hrpc : pkt.rpc with
  | appendEntriesReq req =>
      rw [hrpc] at hterm htakes hfollow
      dsimp only [Rpc.term, TakesTerm] at hterm htakes hfollow ⊢
      have heq : n.handleAppendEntriesRequest env req =
          (n.becomeFollower env req.term req.leaderId).acceptAppendEntries env
            n.store.currentTerm req := by
        rw [handleAppendEntriesRequest, hu, hcur, if_neg (by omega), if_neg (by omega),
          if_pos (.inl htakes)]
      have hf := hfollow req.leaderId
      rw [heq]
      generalize n.becomeFollower env req.term req.leaderId = m at hf ⊢
      exact (acceptAppendEntries_idles env m (by omega) req).quiet.currentTerm.trans hf
  | appendEntriesRes resp =>
      rw [hrpc] at hterm htakes hfollow
      dsimp only [Rpc.term, TakesTerm] at hterm htakes hfollow ⊢
      rw [handleAppendEntriesResponse, hu, if_pos htakes]
      exact hfollow _
  | requestVoteReq req =>
      rw [hrpc] at hterm htakes hfollow
      dsimp only [Rpc.term, TakesTerm] at hterm htakes hfollow ⊢
      rw [handleRequestVoteRequest, hu, hcur, if_neg (by omega), if_neg (by omega), if_pos htakes]
      have hf := hfollow pkt.src
      generalize n.becomeFollower env req.term pkt.src = m at hf ⊢
      rw [decideVote_currentTerm env m hf.ge, hf]
  | requestVoteRes resp =>
      rw [hrpc] at hterm htakes hfollow
      dsimp only [Rpc.term, TakesTerm] at hterm htakes hfollow ⊢
      rw [handleRequestVoteResponse, if_neg (not_not.mpr htakes.1), hu, if_pos htakes.2]
      exact hfollow _
  | procReq req =>
      rw [hrpc] at htakes
      exact htakes.elim
  | procRes resp =>
      rw [hrpc] at htakes
      exact htakes.elim

/-- A vote that is granted is stored, in the term it is asked for in. -/
theorem takes_vote (h : Usable t n.store) (env : Env) (pkt : Pkt) (hterm : pkt.rpc.term < 2 ^ 32)
    (hcand : pkt.rpc.candidateId < 2 ^ 32) (htakes : n.TakesVote pkt.rpc) :
    (n.raftHandleRpc env pkt).store.currentTerm = pkt.rpc.term ∧
      (n.raftHandleRpc env pkt).store.votedFor = pkt.rpc.candidateId := by
  have hcur := usable_get_term h
  have hu := usable_u32_term h
  unfold raftHandleRpc
  cases hrpc : pkt.rpc with
  | requestVoteReq req =>
      rw [hrpc] at hterm hcand htakes
      dsimp only [Rpc.term, Rpc.candidateId, TakesVote] at hterm hcand htakes ⊢
      obtain ⟨hup, hlt | ⟨heq, hnone⟩⟩ := htakes
      · rw [handleRequestVoteRequest, hu, hcur, if_neg (by omega), if_neg (by omega), if_pos hlt]
        have hf := becomeFollower_currentTerm env n req.term pkt.src
        have hv := becomeFollower_votedFor env n req.term pkt.src
        have hsame := @logIsUpToDate_congr n (n.becomeFollower env req.term pkt.src) rfl
          req.lastLogIdx req.lastLogTerm
        rw [u32_of_nat hterm] at hf
        generalize n.becomeFollower env req.term pkt.src = m at hf hv hsame ⊢
        rw [decideVote_unvoted env hv, hsame, if_pos hup, grant_currentTerm]
        exact ⟨hf, grant_votedFor env m _ hcand⟩
      · rw [handleRequestVoteRequest, hu, hcur, if_neg (by omega), if_neg (by omega),
          if_neg (by omega), decideVote_unvoted env hnone, if_pos hup, grant_currentTerm]
        exact ⟨heq, grant_votedFor env n _ hcand⟩
  | _ =>
      rw [hrpc] at htakes
      exact htakes.elim

theorem startElection_votedFor (env : Env) (h : n.store.currentTerm < 2 ^ 31) :
    (n.startElection env).store.votedFor = u32 n.config.id := by
  rw [startElection_eq env n h, broadcastRequestVote_store, setElectionTimer_store]
  rw [set_store, Disk.set_votedFor]

/-- A timeout makes the node stand, or leaves its term and its vote alone. -/
theorem raftHandleTimeout_stands (env : Env) (n : Node Disk) :
    (n.Stands env ∧ ∃ m : Node Disk, m.store = n.store ∧ m.config = n.config ∧
      m.script = n.script ∧ n.raftHandleTimeout env = m.startElection env) ∨
    (¬n.Stands env ∧ Quiet n (n.raftHandleTimeout env)) := by
  have hcandidate : ∃ m : Node Disk, m.store = n.store ∧ m.config = n.config ∧
      m.script = n.script ∧ n.becomeCandidate env = m.startElection env := by
    rw [becomeCandidate]
    exact ⟨{ n with
      role := .candidate
      leaderId := noLeader
      votesReceived := 0
      heartbeatTelemetry := n.heartbeatTelemetry.reset }, rfl, rfl, rfl, rfl⟩
  cases hr : n.role with
  | follower =>
      unfold raftHandleTimeout Stands
      rw [hr]
      dsimp only
      split
      · rename_i hscheme
        exact .inl ⟨.inr ⟨rfl, .inl hscheme⟩, hcandidate⟩
      · rename_i hscheme
        split
        · rename_i hsuspects
          exact .inl ⟨.inr ⟨rfl, .inr hsuspects⟩, hcandidate⟩
        · rename_i hsuspects
          refine .inr ⟨?_, .mem rfl rfl rfl rfl rfl⟩
          simp [hscheme, hsuspects]
  | candidate =>
      refine .inl ⟨.inl hr, n, rfl, rfl, rfl, ?_⟩
      rw [raftHandleTimeout, hr]
  | leader =>
      refine .inr ⟨by simp [Stands, hr], ?_⟩
      rcases raftHandleTimeout_cases env n with hsame | ⟨hf, -⟩ | ⟨hc, -⟩
      · exact hsame.quiet
      · simp [hf] at hr
      · simp [hc] at hr

/-- What a handler stored can be told from what is on the disk after it. -/
theorem storable_of_stored (h : Usable t n.store) {input : Input} (hwf : input.WellFormed)
    (hterm : (n.handle input).store.currentTerm < 2 ^ 31)
    (hvote : t ≤ (n.handle input).store.currentTerm →
      (n.handle input).store.votedFor < 2 ^ 32 → (n.handle input).store.votedFor < 2 ^ 31) :
    n.Storable input := by
  have hle := h.le
  cases input with
  | packet env pkt =>
      intro hdst
      rw [handle, if_neg (not_not.mpr hdst)] at hterm hvote
      refine ⟨fun htakes => ?_, fun htakes => ?_⟩
      · rwa [takes_term h env pkt hwf.1 htakes] at hterm
      · obtain ⟨hnow, hstored⟩ := takes_vote h env pkt hwf.1 hwf.2 htakes
        rw [hnow, hstored] at hvote
        refine hvote ?_ hwf.2
        cases hrpc : pkt.rpc with
        | requestVoteReq req =>
            rw [hrpc] at htakes
            rw [Rpc.term]
            rcases htakes.2 with hlt | ⟨heq, -⟩
            · omega
            · omega
        | _ =>
            rw [hrpc] at htakes
            exact htakes.elim
  | timeout env =>
      intro hstands
      rw [handle] at hterm hvote
      rcases raftHandleTimeout_stands env n with ⟨-, m, hd, hc, -, heq⟩ | ⟨hrests, -⟩
      · have hlt : m.store.currentTerm < 2 ^ 31 := hd ▸ h.term
        rw [heq, startElection_currentTerm env m hlt, hd] at hterm hvote
        rw [startElection_votedFor env hlt, hc] at hvote
        exact ⟨hterm, hvote (by omega) (u32_lt _)⟩
      · exact absurd hstands hrests

/-- A handler leaves a usable disk behind at any time if what it stores comes back. -/
theorem handle_writes (h : Writes t n) {input : Input} (hwf : input.WellFormed)
    (hok : n.Storable input) : Writes t (n.handle input) := by
  have hu := usable_u32_term h.now
  cases input with
  | packet env pkt =>
      rw [handle]
      split
      · exact h
      rename_i hdst
      obtain ⟨hterm, hvote⟩ := hok (not_not.mp hdst)
      obtain ⟨hfits, hcand⟩ := hwf
      have hle := h.now.le
      unfold raftHandleRpc
      cases hrpc : pkt.rpc with
      | appendEntriesReq req =>
          rw [hrpc] at hterm hfits
          dsimp only [Rpc.term, TakesTerm] at hterm hfits ⊢
          rcases handleAppendEntriesRequest_cases env n hfits with
            hsame | ⟨hcond, hsame⟩ | ⟨-, -, hsame⟩
          · exact h.quiet hsame.quiet
          · have hlt : req.term < 2 ^ 31 := by
              have := h.now.term
              rcases hcond with hlt | ⟨heq, -⟩
              · exact hterm (hu ▸ hlt)
              · omega
            exact (becomeFollower_writes h env (by omega) hlt _).quiet hsame.quiet
          · have hmem : Writes t { n with leaderId := req.leaderId } := h.mem rfl rfl
            exact hmem.quiet hsame.quiet
      | appendEntriesRes resp =>
          rw [hrpc] at hterm
          dsimp only [Rpc.term, TakesTerm] at hterm ⊢
          rcases handleAppendEntriesResponse_cases env n pkt.src resp with
            ⟨hlt, heq⟩ | heq | ⟨-, -, ⟨-, hsame⟩ | ⟨-, -, heq⟩⟩
          · rw [heq]
            exact becomeFollower_writes h env (by omega) (hterm (hu ▸ hlt)) _
          · rw [heq]
            exact h
          · have hcredit : Writes t (n.credit pkt.src resp) := h.mem rfl rfl
            exact hcredit.quiet hsame.quiet
          · rw [heq]
            exact h.mem rfl rfl
      | requestVoteReq req =>
          rw [hrpc] at hterm hvote hcand hfits
          dsimp only [Rpc.term, Rpc.candidateId, TakesTerm, TakesVote] at hterm hvote hcand hfits ⊢
          rcases handleRequestVoteRequest_cases env n pkt.src req with
            hsame | ⟨hlt, heq⟩ | ⟨hcur, heq⟩
          · exact h.quiet hsame.quiet
          · rw [heq]
            rw [hu] at hlt
            have hfollow := becomeFollower_writes h env (by omega) (hterm hlt) pkt.src
            have hsame := @logIsUpToDate_congr n (n.becomeFollower env req.term pkt.src) rfl
              req.lastLogIdx req.lastLogTerm
            generalize n.becomeFollower env req.term pkt.src = m at hfollow hsame ⊢
            exact decideVote_writes hfollow env _ fun hup _ => hvote ⟨hsame ▸ hup, .inl hlt⟩
          · rw [heq]
            rw [hu] at hcur
            exact decideVote_writes h env _ fun hup hnone => hvote ⟨hup, .inr ⟨hcur.symm, hnone⟩⟩
      | requestVoteRes resp =>
          rw [hrpc] at hterm
          dsimp only [Rpc.term, TakesTerm] at hterm ⊢
          rcases handleRequestVoteResponse_cases env n pkt.src resp with
            heq | ⟨hr, hlt, heq⟩ | ⟨-, -, -, heq⟩
          · rw [heq]
            exact h
          · rw [heq]
            exact becomeFollower_writes h env (by omega) (hterm ⟨hr, hu ▸ hlt⟩) _
          · have hcount : Writes t n.countVote := h.mem rfl rfl
            rw [heq]
            split
            · exact becomeLeader_writes hcount env
            · exact hcount
      | procReq req => exact h.quiet (handleProcRequest_quiet n req pkt.src)
      | procRes resp => exact h
  | timeout env =>
      rw [handle]
      rcases raftHandleTimeout_stands env n with ⟨hstands, m, hd, hc, hs, heq⟩ | ⟨-, hquiet⟩
      · have hm : Writes t m := h.mem hs hd
        obtain ⟨hterm, hid⟩ := hok hstands
        rw [heq]
        exact startElection_writes hm env (by rwa [hd]) (by rwa [hc])
      · exact h.quiet hquiet

/-! ### Later on -/

theorem storeAfter_writes {s : Disk} {es : List (Effect Disk)} (hs : Usable t s)
    (h : ∀ d event, .store d event ∈ es → Usable t d) : Usable t (storeAfter s es) := by
  induction es generalizing s with
  | nil => exact hs
  | cons e es ih =>
      have hes : ∀ d event, .store d event ∈ es → Usable t d :=
        fun d event hmem => h d event (List.mem_cons_of_mem e hmem)
      cases e with
      | store d event => exact ih (h d event List.mem_cons_self) hes
      | _ => exact ih hs hes

theorem after_run_store (n : Node Disk) (input : Input) :
    (n.after (.run input)).store = (n.handle input).store := by
  unfold after Life.move
  dsimp only
  split <;> rfl

theorem after_usable (h : Usable t n.store) (hidle : n.script = []) {m : Move}
    (hwf : m.input.WellFormed) (hok : n.Storable m.input) : Usable t (n.after m).store := by
  have hwrites := handle_writes (writes_of_idle hidle h) hwf hok
  cases m with
  | run input =>
      rw [after_run_store]
      exact hwrites.now
  | crash input k =>
      show Usable t (storeAfter n.store ((n.handle input).script.take k))
      exact storeAfter_writes h fun d event hmem => hwrites.ever d event (List.mem_of_mem_take hmem)

theorem after_script (n : Node Disk) (m : Move) : (n.after m).script = [] := by
  cases m with
  | run input =>
      unfold after Life.move
      dsimp only
      split <;> rfl
  | crash input k => rfl

/-- The disk stays usable, and nothing is ever left to do. -/
theorem Later.usable (h : Usable t n.store) (hl : Later n n') :
    Usable t n'.store ∧ n'.script = [] := by
  induction hl with
  | rested => exact ⟨h, rfl⟩
  | restart _ ih => exact ⟨ih.1, rfl⟩
  | @move n' m _ hwf _ hok ih => exact ⟨after_usable ih.1 ih.2 hwf hok, after_script n' m⟩

end Node

end GeoRaft
