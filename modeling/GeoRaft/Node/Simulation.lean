import GeoRaft.Node.Lives
import GeoRaft.Node.Loop
import GeoRaft.Wire.Rpc

/-!
The node does not depend on what its storage is made of.

Two kinds of storage that answer alike, call after call, carry the same node: with related
storages and the same memory every handler leaves related storages and the same memory, and
hands the same packets to the transport at the same points.
-/

namespace GeoRaft

open Word

variable {σ τ : Type}

/-- How two kinds of storage go together: when they hold the same, and what has to be so of
a call on both, from what each was to what each is. -/
structure Correspondence (σ τ : Type) where
  same : σ → τ → Prop
  step : σ × τ → σ × τ → Prop

/-- What a call on both leads to. -/
def Correspondence.Changes (S : Correspondence σ τ) (p q : σ × τ) : Prop :=
  S.same q.1 q.2 ∧ S.step p q

section

variable [Storage σ] [Storage τ]

/-- Storages that hold the same answer alike, and hold the same whatever is done to both.
Indexes are of type `int` and values of type `uint32_t`. -/
structure Simulates (S : Correspondence σ τ) : Prop where
  get {s : σ} {t : τ} (h : S.same s t) (f : PersistentField) : Storage.get f s = Storage.get f t
  set {s : σ} {t : τ} (h : S.same s t) (f : PersistentField) {v : ℕ} (hv : v < 2 ^ 32) :
    S.Changes (s, t) ((Storage.set f v s).2, (Storage.set f v t).2)
  set_length {s : σ} {t : τ} (h : S.same s t) (f : PersistentField) (v : ℕ) :
    Storage.length (Storage.set f v t).2 = Storage.length t
  length {s : σ} {t : τ} (h : S.same s t) : Storage.length s = Storage.length t
  length_lt {s : σ} {t : τ} (h : S.same s t) : Storage.length t < 2 ^ 31
  read {s : σ} {t : τ} (h : S.same s t) {idx : ℤ} (hidx : idx < 2 ^ 31) :
    Storage.read idx s = Storage.read idx t
  write {s : σ} {t : τ} (h : S.same s t) {idx : ℤ} (hidx : idx < 2 ^ 31) {entry : LogEntry}
    (hentry : entry.Fits) :
    S.Changes (s, t) ((Storage.write idx entry s).2, (Storage.write idx entry t).2)
  removeLastN {s : σ} {t : τ} (h : S.same s t) {n : ℤ} (hn : n < 2 ^ 31) :
    S.Changes (s, t) ((Storage.removeLastN n s).2, (Storage.removeLastN n t).2)

end

/-- Two scripts with the same effects, from one pair of storages to another, whose calls
correspond. -/
inductive Matching (S : Correspondence σ τ) :
    σ × τ → List (Effect σ) → List (Effect τ) → σ × τ → Prop
  | nil (p : σ × τ) : Matching S p [] [] p
  | store {p q r : σ × τ} {es : List (Effect σ)} {fs : List (Effect τ)} (hc : S.Changes p q)
      (event : Option Event) (h : Matching S q es fs r) :
      Matching S p (.store q.1 event :: es) (.store q.2 event :: fs) r
  | send {p r : σ × τ} {es : List (Effect σ)} {fs : List (Effect τ)} (pkt : Pkt)
      (h : Matching S p es fs r) : Matching S p (.send pkt :: es) (.send pkt :: fs) r
  | note {p r : σ × τ} {es : List (Effect σ)} {fs : List (Effect τ)} (event : Event)
      (h : Matching S p es fs r) : Matching S p (.note event :: es) (.note event :: fs) r
  | exit {p r : σ × τ} {es : List (Effect σ)} {fs : List (Effect τ)}
      (h : Matching S p es fs r) : Matching S p (.exit :: es) (.exit :: fs) r

/-- The packet that an effect hands to the transport. -/
def Effect.packet {σ : Type} : Effect σ → Option Pkt
  | .send pkt => some pkt
  | .store _ _ | .note _ | .exit => none

namespace Matching

variable {S : Correspondence σ τ} {p q r : σ × τ} {es es' : List (Effect σ)}
  {fs fs' : List (Effect τ)}

theorem isEmpty_eq (h : Matching S p es fs q) : es.isEmpty = fs.isEmpty := by
  cases h <;> rfl

theorem append (h : Matching S p es fs q) (h' : Matching S q es' fs' r) :
    Matching S p (es ++ es') (fs ++ fs') r := by
  induction h with
  | nil p => exact h'
  | store hc event h ih => exact .store hc event (ih h')
  | send pkt h ih => exact .send pkt (ih h')
  | note event h ih => exact .note event (ih h')
  | exit h ih => exact .exit (ih h')

theorem storeAfter (h : Matching S p es fs q) :
    q = (GeoRaft.storeAfter p.1 es, GeoRaft.storeAfter p.2 fs) := by
  induction h with
  | nil p => rfl
  | store hc event h ih => exact ih
  | send pkt h ih => exact ih
  | note event h ih => exact ih
  | exit h ih => exact ih

theorem same (h : Matching S p es fs q) (hp : S.same p.1 p.2) : S.same q.1 q.2 := by
  induction h with
  | nil p => exact hp
  | store hc event h ih => exact ih hc.1
  | send pkt h ih => exact ih hp
  | note event h ih => exact ih hp
  | exit h ih => exact ih hp

theorem packets (h : Matching S p es fs q) :
    es.filterMap Effect.packet = fs.filterMap Effect.packet := by
  induction h with
  | nil p => rfl
  | store hc event h ih => exact ih
  | send pkt h ih => exact congrArg (pkt :: ·) ih
  | note event h ih => exact ih
  | exit h ih => exact ih

theorem exit_mem_iff (h : Matching S p es fs q) :
    es.any Effect.isExit = true ↔ Effect.exit ∈ fs := by
  induction h with
  | nil p => simp
  | store hc event h ih => simpa [Effect.isExit] using ih
  | send pkt h ih => simpa [Effect.isExit] using ih
  | note event h ih => simpa [Effect.isExit] using ih
  | exit h ih => simp [Effect.isExit]

/-- Scripts that match do so however far they are carried out. -/
theorem take (h : Matching S p es fs q) (k : ℕ) : ∃ r, Matching S p (es.take k) (fs.take k) r := by
  induction h generalizing k with
  | nil p => rw [List.take_nil, List.take_nil]; exact ⟨p, .nil p⟩
  | @store p q r es fs hc event h ih =>
      cases k with
      | zero => exact ⟨p, .nil p⟩
      | succ k => obtain ⟨r, hr⟩ := ih k; exact ⟨r, .store hc event hr⟩
  | @send p r es fs pkt h ih =>
      cases k with
      | zero => exact ⟨p, .nil p⟩
      | succ k => obtain ⟨r, hr⟩ := ih k; exact ⟨r, .send pkt hr⟩
  | @note p r es fs event h ih =>
      cases k with
      | zero => exact ⟨p, .nil p⟩
      | succ k => obtain ⟨r, hr⟩ := ih k; exact ⟨r, .note event hr⟩
  | @exit p r es fs h ih =>
      cases k with
      | zero => exact ⟨p, .nil p⟩
      | succ k => obtain ⟨r, hr⟩ := ih k; exact ⟨r, .exit hr⟩

/-- The call that is next on the one is next on the other. -/
theorem next (h : Matching S p es fs q) {k : ℕ} {s : σ} {event : Option Event}
    (hk : es[k]? = some (.store s event)) : ∃ t, fs[k]? = some (.store t event) ∧
      S.Changes (GeoRaft.storeAfter p.1 (es.take k), GeoRaft.storeAfter p.2 (fs.take k)) (s, t) := by
  induction h generalizing k with
  | nil p => cases hk
  | @store p q r es fs hc event' h ih =>
      cases k with
      | zero =>
          obtain ⟨rfl, rfl⟩ := Effect.store.inj (Option.some.inj hk)
          exact ⟨q.2, rfl, hc⟩
      | succ k => exact ih hk
  | send pkt h ih =>
      cases k with
      | zero => cases hk
      | succ k => exact ih hk
  | note event' h ih =>
      cases k with
      | zero => cases hk
      | succ k => exact ih hk
  | exit h ih =>
      cases k with
      | zero => cases hk
      | succ k => exact ih hk

end Matching

namespace Node

/-- What a node keeps in memory. -/
def memory (n : Node σ) : Node Unit where
  config := n.config
  role := n.role
  heartbeatCount := n.heartbeatCount
  store := ()
  commitIndex := n.commitIndex
  lastApplied := n.lastApplied
  leaderId := n.leaderId
  heartbeatTelemetry := n.heartbeatTelemetry
  votesReceived := n.votesReceived
  nextIndex := n.nextIndex
  matchIndex := n.matchIndex
  outstandingReqs := n.outstandingReqs
  timer := n.timer
  script := []

/-- The same node on storages that hold the same, after the same effects. -/
structure Alike (S : Correspondence σ τ) (start : σ × τ) (n : Node σ) (m : Node τ) : Prop where
  memory : n.memory = m.memory
  store : S.same n.store m.store
  script : Matching S start n.script m.script (n.store, m.store)
  commit : m.commitIndex < 2 ^ 31
  id : m.config.id < 2 ^ 32

variable {S : Correspondence σ τ} {start : σ × τ} {n n' : Node σ} {m m' : Node τ}

theorem Alike.config (h : Alike S start n m) : n.config = m.config := congrArg Node.config h.memory

theorem Alike.role (h : Alike S start n m) : n.role = m.role := congrArg Node.role h.memory

theorem Alike.commitIndex (h : Alike S start n m) : n.commitIndex = m.commitIndex :=
  congrArg Node.commitIndex h.memory

theorem Alike.lastApplied (h : Alike S start n m) : n.lastApplied = m.lastApplied :=
  congrArg Node.lastApplied h.memory

theorem Alike.nextIndex (h : Alike S start n m) : n.nextIndex = m.nextIndex :=
  congrArg Node.nextIndex h.memory

theorem Alike.matchIndex (h : Alike S start n m) : n.matchIndex = m.matchIndex :=
  congrArg Node.matchIndex h.memory

theorem Alike.votesReceived (h : Alike S start n m) : n.votesReceived = m.votesReceived :=
  congrArg Node.votesReceived h.memory

theorem Alike.leaderId (h : Alike S start n m) : n.leaderId = m.leaderId :=
  congrArg Node.leaderId h.memory

theorem Alike.outstandingReqs (h : Alike S start n m) : n.outstandingReqs = m.outstandingReqs :=
  congrArg Node.outstandingReqs h.memory

theorem Alike.heartbeatTelemetry (h : Alike S start n m) : n.heartbeatTelemetry = m.heartbeatTelemetry :=
  congrArg Node.heartbeatTelemetry h.memory

/-- The same change of the memory of both. -/
theorem Alike.mem (h : Alike S start n m) (f : Node Unit → Node Unit) (hn : n'.memory = f n.memory)
    (hm : m'.memory = f m.memory) (hs : n'.store = n.store) (ht : m'.store = m.store)
    (hes : n'.script = n.script) (hfs : m'.script = m.script) (hc : m'.commitIndex < 2 ^ 31)
    (hid : m'.config = m.config) : Alike S start n' m' where
  memory := by rw [hn, hm, h.memory]
  store := by
    rw [hs, ht]
    exact h.store
  script := by
    rw [hes, hfs, hs, ht]
    exact h.script
  commit := hc
  id := by
    rw [hid]
    exact h.id

theorem Alike.put (h : Alike S start n m) {s : σ} {t : τ}
    (hc : S.Changes (n.store, m.store) (s, t)) (event : Option Event) :
    Alike S start (n.put s event) (m.put t event) where
  memory := h.memory
  store := hc.1
  script := h.script.append (.store hc event (.nil _))
  commit := h.commit
  id := h.id

theorem Alike.note (h : Alike S start n m) (event : Event) : Alike S start (n.note event) (m.note event) where
  memory := h.memory
  store := h.store
  script := h.script.append (.note event (.nil _))
  commit := h.commit
  id := h.id

theorem Alike.send (h : Alike S start n m) (dst : ℕ) (rpc : Rpc) :
    Alike S start (n.send dst rpc) (m.send dst rpc) where
  memory := h.memory
  store := h.store
  script := by
    show Matching S start _ (m.script ++ [.send ⟨dst, m.config.id, rpc⟩]) _
    rw [← h.config]
    exact h.script.append (.send _ (.nil _))
  commit := h.commit
  id := h.id

theorem Alike.exit (h : Alike S start n m) : Alike S start { n with script := n.script ++ [.exit] }
    { m with script := m.script ++ [.exit] } where
  memory := h.memory
  store := h.store
  script := h.script.append (.exit (.nil _))
  commit := h.commit
  id := h.id

/-- The same loop over the other nodes. -/
theorem Alike.forOthers (h : Alike S start n m) {body : Node σ → ℕ → Node σ} {body' : Node τ → ℕ → Node τ}
    (hbody : ∀ {n m}, Alike S start n m → ∀ i, Alike S start (body n i) (body' m i)) :
    Alike S start (n.forOthers body) (m.forOthers body') := by
  unfold Node.forOthers
  rw [h.config]
  generalize m.config = config
  induction config.numNodes with
  | zero => exact h
  | succ k ih =>
      rw [List.range_succ, List.foldl_append, List.foldl_append, List.foldl_cons, List.foldl_nil,
        List.foldl_cons, List.foldl_nil]
      split
      · exact ih
      · exact hbody ih k

/-! ### What is read -/

variable [Storage σ] [Storage τ]

theorem Alike.get (hR : Simulates S) (h : Alike S start n m) (f : PersistentField) : n.get f = m.get f :=
  hR.get h.store f

theorem Alike.logLength (hR : Simulates S) (h : Alike S start n m) : n.logLength = m.logLength :=
  hR.length h.store

theorem Alike.logRead (hR : Simulates S) (h : Alike S start n m) {idx : ℤ} (hidx : idx < 2 ^ 31) :
    n.logRead idx = m.logRead idx := hR.read h.store hidx

theorem Alike.raftGetLogTerm (hR : Simulates S) (h : Alike S start n m) (logIdx : ℤ) :
    n.raftGetLogTerm logIdx = m.raftGetLogTerm logIdx := by
  unfold Node.raftGetLogTerm
  rw [h.logLength hR]
  split
  · rfl
  split
  · rfl
  · rename_i hlt
    have hlen : m.logLength < 2 ^ 31 := hR.length_lt h.store
    rw [h.logRead hR (by omega)]

theorem Alike.logIsUpToDate (hR : Simulates S) (h : Alike S start n m) (idx term : ℕ) :
    n.logIsUpToDate idx term = m.logIsUpToDate idx term := by
  unfold Node.logIsUpToDate
  dsimp only
  rw [h.logLength hR, h.raftGetLogTerm hR]

theorem Alike.appendEntriesReqTo (hR : Simulates S) (h : Alike S start n m) (term i : ℕ)
    (entries : List LogEntry) :
    n.appendEntriesReqTo term i entries = m.appendEntriesReqTo term i entries := by
  unfold Node.appendEntriesReqTo
  dsimp only
  rw [h.nextIndex, h.config, h.commitIndex, h.raftGetLogTerm hR]

theorem Alike.entriesFor (hR : Simulates S) (h : Alike S start n m) (logLen : ℤ) (i : ℕ) :
    n.entriesFor logLen i = m.entriesFor logLen i := by
  unfold Node.entriesFor Node.nToSend
  rw [h.nextIndex]
  refine List.map_congr_left fun j _ => ?_
  rw [h.logRead hR (i32_lt _)]

theorem Alike.prevMatches_iff (hR : Simulates S) (h : Alike S start n m) (logLen : ℤ)
    (req : AppendEntriesReq) : n.prevMatches logLen req ↔ m.prevMatches logLen req := by
  unfold Node.prevMatches
  rw [h.raftGetLogTerm hR]

omit [Storage σ] [Storage τ] in
theorem Alike.replicaCount (h : Alike S start n m) (k : ℤ) : n.replicaCount k = m.replicaCount k := by
  unfold Node.replicaCount
  rw [h.config, h.matchIndex]

/-! ### What is written -/

theorem Alike.set (hR : Simulates S) (h : Alike S start n m) (f : PersistentField) {v : ℕ}
    (hv : v < 2 ^ 32) (event : Option Event) : Alike S start (n.set f v event) (m.set f v event) :=
  h.put (hR.set h.store f hv) event

theorem Alike.logWrite (hR : Simulates S) (h : Alike S start n m) {idx : ℤ} (hidx : idx < 2 ^ 31)
    {entry : LogEntry} (hentry : entry.Fits) (event : Option Event) :
    Alike S start (n.logWrite idx entry event) (m.logWrite idx entry event) :=
  h.put (hR.write h.store hidx hentry) event

theorem Alike.logRemoveLastN (hR : Simulates S) (h : Alike S start n m) {k : ℤ} (hk : k < 2 ^ 31) :
    Alike S start (n.logRemoveLastN k) (m.logRemoveLastN k) :=
  h.put (hR.removeLastN h.store hk) none

theorem Alike.appendLogEntry (hR : Simulates S) (h : Alike S start n m) {entry : LogEntry}
    (hentry : entry.Fits) : Alike S start (n.appendLogEntry entry) (m.appendLogEntry entry) := by
  unfold Node.appendLogEntry
  dsimp only
  rw [h.logLength hR]
  split
  · exact h
  · exact h.logWrite hR (hR.length_lt h.store) hentry _

/-! ### Broadcasts and timers -/

theorem Alike.broadcastRequestVote (hR : Simulates S) (h : Alike S start n m) :
    Alike S start n.broadcastRequestVote m.broadcastRequestVote := by
  unfold Node.broadcastRequestVote
  dsimp only
  rw [h.logLength hR, h.get hR, h.config, h.raftGetLogTerm hR]
  split
  · exact h
  · exact h.forOthers fun h i => h.send i _

theorem Alike.sendHeartbeats (hR : Simulates S) (h : Alike S start n m) :
    Alike S start n.sendHeartbeats m.sendHeartbeats := by
  unfold Node.sendHeartbeats
  dsimp only
  rw [h.role, h.get hR]
  split
  · exact h
  · refine h.forOthers fun h i => ?_
    rw [h.appendEntriesReqTo hR]
    exact h.send i _

theorem Alike.broadcastAppendEntries (hR : Simulates S) (h : Alike S start n m) :
    Alike S start n.broadcastAppendEntries m.broadcastAppendEntries := by
  unfold Node.broadcastAppendEntries
  dsimp only
  rw [h.role, h.get hR, h.logLength hR]
  split
  · exact h
  · refine h.forOthers fun h i => ?_
    rw [h.appendEntriesReqTo hR, h.entriesFor hR]
    exact h.send i _

omit [Storage σ] [Storage τ] in
theorem Alike.setFaultDetectTimer (h : Alike S start n m) (env : Env) :
    Alike S start (n.setFaultDetectTimer env) (m.setFaultDetectTimer env) :=
  h.mem (Node.setFaultDetectTimer env) rfl rfl rfl rfl rfl rfl h.commit rfl

omit [Storage σ] [Storage τ] in
theorem Alike.setElectionTimer (h : Alike S start n m) (env : Env) :
    Alike S start (n.setElectionTimer env) (m.setElectionTimer env) :=
  h.mem (Node.setElectionTimer env) rfl rfl rfl rfl rfl rfl h.commit rfl

omit [Storage σ] [Storage τ] in
theorem Alike.setHeartbeatTimer (h : Alike S start n m) (env : Env) :
    Alike S start (n.setHeartbeatTimer env) (m.setHeartbeatTimer env) :=
  h.mem (Node.setHeartbeatTimer env) rfl rfl rfl rfl rfl rfl h.commit rfl

/-! ### Elections -/

omit [Storage σ] [Storage τ] in
theorem Alike.countVotes (h : Alike S start n m) (votes : ℕ) :
    Alike S start { n with votesReceived := votes } { m with votesReceived := votes } :=
  h.mem (fun x => { x with votesReceived := votes }) rfl rfl rfl rfl rfl rfl h.commit rfl

theorem Alike.startElection (hR : Simulates S) (h : Alike S start n m) (env : Env) :
    Alike S start (n.startElection env) (m.startElection env) := by
  unfold Node.startElection
  dsimp only
  rw [h.get hR]
  split
  · exact h
  · generalize hu : u32 _ = term
    have hlt : term < 2 ^ 32 := hu ▸ u32_lt _
    have hterm := h.set hR .currentTerm hlt none
    generalize n.set .currentTerm term none = n₁ at hterm ⊢
    generalize m.set .currentTerm term none = m₁ at hterm ⊢
    rw [hterm.config]
    refine Alike.broadcastRequestVote hR (Alike.setElectionTimer ?_ env)
    exact (hterm.set hR .votedFor hterm.id _).countVotes 1

theorem Alike.becomeFollower (hR : Simulates S) (h : Alike S start n m) (env : Env) {term : ℕ}
    (hterm : term < 2 ^ 32) (leaderId : ℕ) :
    Alike S start (n.becomeFollower env term leaderId) (m.becomeFollower env term leaderId) := by
  unfold Node.becomeFollower
  dsimp only
  refine Alike.setFaultDetectTimer ?_ env
  have hset := (h.note (.becameFollower term)).set hR .currentTerm hterm none
  generalize (n.note (.becameFollower term)).set .currentTerm term none = n₁ at hset ⊢
  generalize (m.note (.becameFollower term)).set .currentTerm term none = m₁ at hset ⊢
  have hrole : Alike S start { n₁ with role := .follower, leaderId := leaderId }
      { m₁ with role := .follower, leaderId := leaderId } :=
    hset.mem (fun x => { x with role := .follower, leaderId := leaderId }) rfl rfl rfl rfl rfl rfl
      hset.commit rfl
  have hvote := hrole.set hR .votedFor (by decide : pfNoVote < 2 ^ 32) none
  exact hvote.mem (fun x => { x with
    votesReceived := 0
    heartbeatTelemetry := x.heartbeatTelemetry.reset }) rfl rfl rfl rfl rfl rfl hvote.commit rfl

theorem Alike.logLength_becomeFollower (hR : Simulates S) (h : Alike S start n m) (env : Env) {term : ℕ}
    (hterm : term < 2 ^ 32) (leaderId : ℕ) :
    (m.becomeFollower env term leaderId).logLength = m.logLength :=
  (hR.set_length (hR.set h.store .currentTerm hterm).1 .votedFor pfNoVote).trans
    (hR.set_length h.store .currentTerm term)

theorem Alike.becomeCandidate (hR : Simulates S) (h : Alike S start n m) (env : Env) :
    Alike S start (n.becomeCandidate env) (m.becomeCandidate env) := by
  unfold Node.becomeCandidate
  dsimp only
  refine Alike.startElection hR ?_ env
  exact h.mem (fun x => { x with
    role := .candidate
    leaderId := noLeader
    votesReceived := 0
    heartbeatTelemetry := x.heartbeatTelemetry.reset }) rfl rfl rfl rfl rfl rfl h.commit rfl

theorem Alike.becomeLeader (hR : Simulates S) (h : Alike S start n m) (env : Env) :
    Alike S start (n.becomeLeader env) (m.becomeLeader env) := by
  unfold Node.becomeLeader
  dsimp only
  rw [h.get hR]
  generalize u32 (m.get .currentTerm) = term
  have hnote := h.note (.becameLeader term)
  rw [hnote.logLength hR]
  generalize (m.note (.becameLeader term)).logLength = logLen
  refine Alike.sendHeartbeats hR (Alike.setHeartbeatTimer ?_ env)
  exact hnote.mem (fun x => { x with
    role := .leader
    leaderId := noLeader
    heartbeatCount := 0
    heartbeatTelemetry := x.heartbeatTelemetry.reset
    nextIndex := List.replicate x.config.numNodes (u32 logLen)
    matchIndex := List.replicate x.config.numNodes (-1) }) rfl rfl rfl rfl rfl rfl hnote.commit rfl

/-! ### Applying -/

theorem Alike.replyOutstanding (hR : Simulates S) (h : Alike S start n m) (idx : ℤ) (entry : LogEntry) :
    Alike S start (n.replyOutstanding idx entry) (m.replyOutstanding idx entry) := by
  unfold Node.replyOutstanding
  rw [h.outstandingReqs, h.config, h.get hR]
  split
  · exact h
  · rename_i i _
    have hsent := (h.note (.reply idx entry)).send entry.clientId
      (.procRes ⟨entry.clientId, entry.cmdSeqno, 1, m.config.id, u32 (m.get .currentTerm)⟩)
    exact hsent.mem (fun x => { x with
      outstandingReqs := x.outstandingReqs.modify i fun r => { r with active := false } })
      rfl rfl rfl rfl rfl rfl hsent.commit rfl

/-- An entry is read only up to the commit index, which is an `int`. -/
theorem Alike.applyNext (hR : Simulates S) (h : Alike S start n m)
    (hlt : m.lastApplied < m.commitIndex) : Alike S start n.applyNext m.applyNext := by
  have hcommit := h.commit
  have hlast : Alike S start { n with lastApplied := n.lastApplied + 1 }
      { m with lastApplied := m.lastApplied + 1 } :=
    h.mem (fun x => { x with lastApplied := x.lastApplied + 1 }) rfl rfl rfl rfl rfl rfl h.commit rfl
  unfold Node.applyNext
  dsimp only
  rw [hlast.logRead hR (by rw [h.lastApplied]; omega), h.lastApplied]
  rw [h.lastApplied] at hlast
  split
  · exact hlast
  · rename_i entry _
    have hnote := hlast.note (.apply (m.lastApplied + 1) entry)
    by_cases hr : m.role = .leader
    · rw [if_pos (by exact h.role.trans hr), if_pos (by exact hr)]
      exact hnote.replyOutstanding hR _ entry
    · rw [if_neg (by rw [← h.role] at hr; exact hr), if_neg (by exact hr)]
      exact hnote

theorem Alike.applyLoop (hR : Simulates S) (h : Alike S start n m) (fuel : ℕ) :
    Alike S start (Node.applyLoop fuel n) (Node.applyLoop fuel m) := by
  induction fuel generalizing n m with
  | zero => exact h
  | succ fuel ih =>
      rw [Node.applyLoop, Node.applyLoop, h.lastApplied, h.commitIndex]
      split
      · rename_i hlt
        exact ih (h.applyNext hR hlt)
      · exact h

theorem Alike.applyToStateMachine (hR : Simulates S) (h : Alike S start n m) :
    Alike S start n.applyToStateMachine m.applyToStateMachine := by
  unfold Node.applyToStateMachine
  rw [h.lastApplied, h.commitIndex]
  exact h.applyLoop hR _

/-! ### Requests and responses -/

/-- The length the loop goes by starts as the length of the log and has room for the entries. -/
theorem Alike.storeEntries (hR : Simulates S) (h : Alike S start n m) (newIdx i : ℕ) {logLen : ℤ}
    {entries : List LogEntry} (hfits : ∀ entry ∈ entries, entry.Fits) (hlo : 0 ≤ logLen)
    (hhi : logLen + entries.length < 2 ^ 31) :
    Alike S start (Node.storeEntries newIdx i logLen entries n)
      (Node.storeEntries newIdx i logLen entries m) := by
  induction entries generalizing i logLen n m with
  | nil => exact h
  | cons entry entries ih =>
      rw [List.length_cons] at hhi
      have hentry := hfits entry List.mem_cons_self
      have hrest : ∀ e ∈ entries, e.Fits := fun e he => hfits e (List.mem_cons_of_mem _ he)
      rw [Node.storeEntries, Node.storeEntries]
      dsimp only
      rw [h.raftGetLogTerm hR]
      have hidx := u32_lt ((newIdx : ℤ) + i)
      generalize u32 ((newIdx : ℤ) + i) = pos at hidx ⊢
      split
      · rename_i hlt
        obtain ⟨len, rfl⟩ := Int.eq_ofNat_of_zero_le hlo
        rw [u32_of_nat (by omega)] at hlt
        rw [i32_of_nat (by omega)]
        split
        · refine ih ?_ _ hrest (by omega) (by omega)
          exact (h.logRemoveLastN hR (by omega)).logWrite hR (by omega) hentry none
        · exact ih h _ hrest (by omega) (by omega)
      · refine ih ?_ _ hrest (by omega) (by omega)
        exact h.logWrite hR (i32_lt _) hentry none

theorem Alike.advanceCommit (hR : Simulates S) (h : Alike S start n m) {req : AppendEntriesReq}
    (hreq : req.leaderCommit < 2 ^ 31) : Alike S start (n.advanceCommit req) (m.advanceCommit req) := by
  unfold Node.advanceCommit
  rw [h.commitIndex]
  split
  · dsimp only
    have hlast := i32_lt (u32 ((req.prevLogIdx : ℤ) + req.nEntries))
    generalize i32 (u32 ((req.prevLogIdx : ℤ) + req.nEntries)) = last at hlast ⊢
    refine Alike.applyToStateMachine hR ?_
    refine h.mem (fun x => { x with
      commitIndex := if req.leaderCommit < last then req.leaderCommit else last })
      rfl rfl rfl rfl rfl rfl ?_ rfl
    dsimp only
    split <;> assumption
  · exact h

theorem Alike.acceptAppendEntries (hR : Simulates S) (h : Alike S start n m) (env : Env) (curTerm : ℕ)
    {req : AppendEntriesReq} (hcommit : req.leaderCommit < 2 ^ 31)
    (hfits : ∀ entry ∈ req.entries, entry.Fits)
    (hroom : m.logLength + req.entries.length < 2 ^ 31) :
    Alike S start (n.acceptAppendEntries env curTerm req) (m.acceptAppendEntries env curTerm req) := by
  unfold Node.acceptAppendEntries
  dsimp only
  generalize hn₁ : (if n.role = .follower ∧ req.nEntries = 0 then _ else n) = n₁
  generalize hm₁ : (if m.role = .follower ∧ req.nEntries = 0 then _ else m) = m₁
  obtain ⟨halike, hlen⟩ : Alike S start n₁ m₁ ∧ m₁.logLength = m.logLength := by
    subst hn₁ hm₁
    by_cases hcond : m.role = .follower ∧ req.nEntries = 0
    · rw [if_pos (by rw [h.role]; exact hcond), if_pos hcond]
      exact ⟨h.mem (fun x => { x with
        heartbeatTelemetry := x.heartbeatTelemetry.recordInterval env.now })
        rfl rfl rfl rfl rfl rfl h.commit rfl, rfl⟩
    · rw [if_neg (by rw [h.role]; exact hcond), if_neg hcond]
      exact ⟨h, rfl⟩
  have htimed := halike.setFaultDetectTimer env
  have hlen' : (m₁.setFaultDetectTimer env).logLength = m.logLength := hlen
  generalize n₁.setFaultDetectTimer env = n₂ at htimed ⊢
  generalize m₁.setFaultDetectTimer env = m₂ at htimed hlen' ⊢
  rw [htimed.logLength hR, hlen']
  split
  · exact htimed
  · rename_i hneg
    simp only [htimed.prevMatches_iff hR]
    split
    · exact htimed.send _ _
    · have hstored := htimed.storeEntries hR (u32 ((req.prevLogIdx : ℤ) + 1)) 0 hfits
        (not_lt.mp hneg) hroom
      exact (hstored.advanceCommit hR hcommit).send _ _

theorem Alike.handleAppendEntriesRequest (hR : Simulates S) (h : Alike S start n m) (env : Env)
    {req : AppendEntriesReq} (hfits : (Rpc.appendEntriesReq req).Fits)
    (hroom : m.logLength + req.entries.length < 2 ^ 31) :
    Alike S start (n.handleAppendEntriesRequest env req) (m.handleAppendEntriesRequest env req) := by
  obtain ⟨hterm, -, -, -, ⟨-, hcommit⟩, hentries⟩ := hfits
  unfold Node.handleAppendEntriesRequest
  dsimp only
  rw [h.get hR]
  split
  · exact h
  split
  · exact h.send _ _
  refine Alike.acceptAppendEntries hR ?_ env _ hcommit hentries ?_
  · by_cases hcond : req.term > u32 (m.get .currentTerm) ∨
        req.term = u32 (m.get .currentTerm) ∧ m.role = .candidate
    · rw [if_pos (by rw [h.role]; exact hcond), if_pos hcond]
      exact h.becomeFollower hR env hterm req.leaderId
    · rw [if_neg (by rw [h.role]; exact hcond), if_neg hcond]
      exact h.mem (fun x => { x with leaderId := req.leaderId }) rfl rfl rfl rfl rfl rfl h.commit rfl
  · split
    · rw [h.logLength_becomeFollower hR env hterm]
      exact hroom
    · exact hroom

theorem Alike.tryCommit (hR : Simulates S) (h : Alike S start n m) (curTerm : ℕ) {k : ℤ}
    (hk : k < 2 ^ 31) : Alike S start (n.tryCommit curTerm k) (m.tryCommit curTerm k) := by
  unfold Node.tryCommit
  rw [h.raftGetLogTerm hR, h.replicaCount, h.config]
  split
  · exact h
  split
  · have hnote := h.note (.commit curTerm k)
    exact hnote.mem (fun x => { x with commitIndex := k }) rfl rfl rfl rfl rfl rfl hk rfl
  · exact h

theorem Alike.commitLoop (hR : Simulates S) (h : Alike S start n m) (curTerm : ℕ) {logLen : ℤ}
    (hlen : logLen < 2 ^ 31) : Alike S start (n.commitLoop curTerm logLen) (m.commitLoop curTerm logLen) := by
  unfold Node.commitLoop
  dsimp only
  rw [h.commitIndex]
  generalize m.commitIndex + 1 = first
  have hturn : ∀ k : ℕ, k ≤ (logLen - first).toNat →
      Alike S start ((List.range k).foldl (fun nd (j : ℕ) => nd.tryCommit curTerm (first + j)) n)
        ((List.range k).foldl (fun nd (j : ℕ) => nd.tryCommit curTerm (first + j)) m) := by
    intro k hk
    induction k with
    | zero => exact h
    | succ k ih =>
        rw [List.range_succ, List.foldl_append, List.foldl_append]
        exact (ih (by omega)).tryCommit hR curTerm (by omega)
  exact hturn _ le_rfl

theorem Alike.handleAppendEntriesResponse (hR : Simulates S) (h : Alike S start n m) (env : Env)
    (srcId : ℕ) {resp : AppendEntriesRes} (hterm : resp.term < 2 ^ 32) :
    Alike S start (n.handleAppendEntriesResponse env srcId resp)
      (m.handleAppendEntriesResponse env srcId resp) := by
  unfold Node.handleAppendEntriesResponse
  dsimp only
  rw [h.get hR, h.logLength hR]
  by_cases hhigher : resp.term > u32 (m.get .currentTerm)
  · rw [if_pos hhigher, if_pos hhigher]
    exact h.becomeFollower hR env hterm srcId
  rw [if_neg hhigher, if_neg hhigher]
  by_cases hstale : m.role ≠ .leader ∨ resp.term < u32 (m.get .currentTerm)
  · rw [if_pos (by rw [h.role]; exact hstale), if_pos hstale]
    exact h
  rw [if_neg (by rw [h.role]; exact hstale), if_neg hstale]
  split
  · refine Alike.applyToStateMachine hR (Alike.commitLoop hR ?_ _ (hR.length_lt h.store))
    exact h.mem (fun x => { x with
      matchIndex := x.matchIndex.set srcId (i32 resp.newMatchIndex)
      nextIndex := x.nextIndex.set srcId (u32 m.logLength) }) rfl rfl rfl rfl rfl rfl h.commit rfl
  · by_cases hpos : m.nextIndex.getD srcId 0 > 0
    · rw [if_pos (by rw [h.nextIndex]; exact hpos), if_pos hpos]
      exact h.mem (fun x => { x with nextIndex := x.nextIndex.modify srcId (· - 1) })
        rfl rfl rfl rfl rfl rfl h.commit rfl
    · rw [if_neg (by rw [h.nextIndex]; exact hpos), if_neg hpos]
      exact h

theorem Alike.decideVote (hR : Simulates S) (h : Alike S start n m) (env : Env) (curTerm : ℕ)
    {req : RequestVoteReq} (hid : req.candidateId < 2 ^ 32) :
    Alike S start (n.decideVote env curTerm req) (m.decideVote env curTerm req) := by
  unfold Node.decideVote
  dsimp only
  rw [h.get hR, h.logIsUpToDate hR]
  split
  · exact h
  split
  · exact h.send _ _
  · exact ((h.set hR .votedFor hid _).setElectionTimer env).send _ _

theorem Alike.handleRequestVoteRequest (hR : Simulates S) (h : Alike S start n m) (env : Env)
    (srcId : ℕ) {req : RequestVoteReq} (hfits : (Rpc.requestVoteReq req).Fits) :
    Alike S start (n.handleRequestVoteRequest env srcId req) (m.handleRequestVoteRequest env srcId req) := by
  obtain ⟨hterm, hid, -, -⟩ := hfits
  unfold Node.handleRequestVoteRequest
  dsimp only
  rw [h.get hR]
  split
  · exact h
  split
  · exact h.send _ _
  split
  · exact (h.becomeFollower hR env hterm srcId).decideVote hR env _ hid
  · exact h.decideVote hR env _ hid

theorem Alike.handleRequestVoteResponse (hR : Simulates S) (h : Alike S start n m) (env : Env)
    (srcId : ℕ) {resp : RequestVoteRes} (hterm : resp.term < 2 ^ 32) :
    Alike S start (n.handleRequestVoteResponse env srcId resp)
      (m.handleRequestVoteResponse env srcId resp) := by
  have hcount : Alike S start { n with votesReceived := n.votesReceived + 1 }
      { m with votesReceived := m.votesReceived + 1 } :=
    h.mem (fun x => { x with votesReceived := x.votesReceived + 1 }) rfl rfl rfl rfl rfl rfl h.commit rfl
  unfold Node.handleRequestVoteResponse
  dsimp only
  by_cases hr : m.role = .candidate
  · rw [if_neg (by rw [h.role]; exact not_not.mpr hr), if_neg (not_not.mpr hr), h.get hR]
    split
    · exact h.becomeFollower hR env hterm srcId
    split
    · exact h
    split
    · by_cases hmajority : m.votesReceived + 1 > m.config.numNodes / 2
      · rw [if_pos (by rw [h.votesReceived, h.config]; exact hmajority), if_pos hmajority]
        exact hcount.becomeLeader hR env
      · rw [if_neg (by rw [h.votesReceived, h.config]; exact hmajority), if_neg hmajority]
        exact hcount
    · exact h
  · rw [if_pos (by rw [h.role]; exact hr), if_pos hr]
    exact h

omit [Storage σ] [Storage τ] in
theorem Alike.recordOutstanding (h : Alike S start n m) (req : ProcReq) (logLen : ℤ) :
    Alike S start (n.recordOutstanding req logLen) (m.recordOutstanding req logLen) := by
  unfold Node.recordOutstanding
  rw [h.outstandingReqs]
  split
  · exact h
  · rename_i i _
    exact h.mem (fun x => { x with
      outstandingReqs := m.outstandingReqs.set i ⟨req.clientId, req.cmdSeqno, u32 logLen, true⟩ })
      rfl rfl rfl rfl rfl rfl h.commit rfl

theorem Alike.handleProcRequest (hR : Simulates S) (h : Alike S start n m) {req : ProcReq} (srcId : ℕ)
    (hfits : (Rpc.procReq req).Fits) :
    Alike S start (n.handleProcRequest req srcId) (m.handleProcRequest req srcId) := by
  obtain ⟨hclient, hseqno, hcmd⟩ := hfits
  unfold Node.handleProcRequest
  dsimp only
  rw [h.role, h.get hR, h.leaderId, h.logLength hR]
  split
  · exact h.send _ _
  · refine Alike.broadcastAppendEntries hR (Alike.recordOutstanding ?_ _ _)
    exact h.appendLogEntry hR ⟨u32_lt _, hclient, hseqno, hcmd⟩

/-! ### One turn -/

/-- One turn of the loop of `raft_run`, on storage of any kind. -/
def turn (node : Node σ) : Input → Node σ
  | .packet env pkt => if pkt.dst ≠ node.config.id then node else node.raftHandleRpc env pkt
  | .timeout env => node.raftHandleTimeout env

theorem turn_eq_handle (node : Node Disk) (input : Input) : node.turn input = node.handle input := by
  cases input <;> rfl

/-- What unpacking can return, for a log that has room for it. -/
def Carries (m : Node τ) : Input → Prop
  | .packet _ pkt => pkt.rpc.Fits ∧ ∀ req, pkt.rpc = .appendEntriesReq req →
      m.logLength + req.entries.length < 2 ^ 31
  | .timeout _ => True

theorem Alike.raftHandleRpc (hR : Simulates S) (h : Alike S start n m) (env : Env) {pkt : Pkt}
    (hfits : pkt.rpc.Fits)
    (hroom : ∀ req, pkt.rpc = .appendEntriesReq req → m.logLength + req.entries.length < 2 ^ 31) :
    Alike S start (n.raftHandleRpc env pkt) (m.raftHandleRpc env pkt) := by
  unfold Node.raftHandleRpc
  cases hrpc : pkt.rpc with
  | appendEntriesReq req => exact h.handleAppendEntriesRequest hR env (hrpc ▸ hfits) (hroom req hrpc)
  | appendEntriesRes resp =>
      rw [hrpc] at hfits
      exact h.handleAppendEntriesResponse hR env pkt.src hfits.1
  | requestVoteReq req => exact h.handleRequestVoteRequest hR env pkt.src (hrpc ▸ hfits)
  | requestVoteRes resp =>
      rw [hrpc] at hfits
      exact h.handleRequestVoteResponse hR env pkt.src hfits.1
  | procReq req => exact h.handleProcRequest hR pkt.src (hrpc ▸ hfits)
  | procRes res => exact h

theorem Alike.raftHandleTimeout (hR : Simulates S) (h : Alike S start n m) (env : Env) :
    Alike S start (n.raftHandleTimeout env) (m.raftHandleTimeout env) := by
  unfold Node.raftHandleTimeout
  rw [h.role]
  split
  · rw [h.heartbeatTelemetry, h.config]
    split
    · exact h.becomeCandidate hR env
    split
    · exact h.becomeCandidate hR env
    · exact h.setFaultDetectTimer env
  · exact h.startElection hR env
  · have hsent := (h.setHeartbeatTimer env).sendHeartbeats hR
    dsimp only
    generalize (n.setHeartbeatTimer env).sendHeartbeats = n₁ at hsent ⊢
    generalize (m.setHeartbeatTimer env).sendHeartbeats = m₁ at hsent ⊢
    have hcount : Alike S start { n₁ with heartbeatCount := n₁.heartbeatCount + 1 }
        { m₁ with heartbeatCount := m₁.heartbeatCount + 1 } :=
      hsent.mem (fun x => { x with heartbeatCount := x.heartbeatCount + 1 })
        rfl rfl rfl rfl rfl rfl hsent.commit rfl
    have hbeat : n₁.heartbeatCount = m₁.heartbeatCount := congrArg Node.heartbeatCount hsent.memory
    by_cases hcrash : m₁.config.crashAfterH ≥ 0 ∧ m₁.heartbeatCount + 1 ≥ m₁.config.crashAfterH
    · rw [if_pos (by rw [hsent.config, hbeat]; exact hcrash), if_pos hcrash]
      exact hcount.exit
    · rw [if_neg (by rw [hsent.config, hbeat]; exact hcrash), if_neg hcrash]
      exact hcount

/-- One turn on related storages: the same memory, the same packets and events, and storages
that are related again. -/
theorem Alike.turn (hR : Simulates S) (h : Alike S start n m) {input : Input} (hin : m.Carries input) :
    Alike S start (n.turn input) (m.turn input) := by
  cases input with
  | timeout env => exact h.raftHandleTimeout hR env
  | packet env pkt =>
      rw [Node.turn, Node.turn, h.config]
      split
      · exact h
      · exact h.raftHandleRpc hR env hin.1 hin.2

end Node

end GeoRaft
