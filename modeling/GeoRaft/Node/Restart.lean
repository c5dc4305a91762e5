import GeoRaft.Node.Candidacy

/-!
The vote a node finds when it is started again.

Term and vote are two writes, and the term is written first. Between the two
the disk holds the new term beside the vote of the old one, so a process that
ends there leaves a vote behind that was never cast. Nowhere else does it.
-/

namespace GeoRaft

open Word

/-- A vote on the disk was cast in the term on the disk. -/
def Cast (events : List Event) (d : Disk) : Prop :=
  d.votedFor ≠ pfNoVote → .vote d.currentTerm d.votedFor ∈ events

instance (events : List Event) (d : Disk) : Decidable (Cast events d) :=
  inferInstanceAs (Decidable (_ → _))

/-- The last of the effects wrote a new term to a disk that holds a vote, and the
vote that goes with the term is not written yet. -/
def Torn (d : Disk) (es : List (Effect Disk)) : Prop :=
  match es.getLast? with
  | some (.store d' none) => d'.currentTerm ≠ d.currentTerm ∧ d'.votedFor ≠ pfNoVote
  | _ => False

instance (d : Disk) (es : List (Effect Disk)) : Decidable (Torn d es) := by
  unfold Torn
  split <;> infer_instance

theorem Cast.append {events events' : List Event} {d : Disk} (h : Cast events d) :
    Cast (events ++ events') d :=
  fun hv => List.mem_append_left _ (h hv)

/-- The disk after these effects is one a process may be started from. -/
def Sound (s : Disk) (events : List Event) (es : List (Effect Disk)) : Prop :=
  (storeAfter s es).currentTerm < 2 ^ 32 ∧
    (Torn s es ∨ Cast (events ++ es.filterMap Effect.event) (storeAfter s es))

theorem take_snoc_cases {α : Type*} (l : List α) (a : α) (k : ℕ) :
    (l ++ [a]).take k = l.take k ∨ (l ++ [a]).take k = l ++ [a] := by
  rcases le_or_gt k l.length with hle | hgt
  · exact .inl (List.take_append_of_le_length hle)
  · exact .inr (List.take_of_length_le (by rw [List.length_append, List.length_singleton]; omega))

namespace Node

variable {s : Disk} {events : List Event} {n n' : Node Disk}

/-- Wherever the script is cut, the disk is sound. -/
structure Sincere (s : Disk) (events : List Event) (n : Node Disk) : Prop where
  store : storeAfter s n.script = n.store
  fits : n.store.currentTerm < 2 ^ 32
  cast : Cast (events ++ n.script.filterMap Effect.event) n.store
  cut : ∀ k, Sound s events (n.script.take k)

theorem sincere_of_idle (hidle : n.script = []) (hfits : n.store.currentTerm < 2 ^ 32)
    (hcast : Cast events n.store) : Sincere n.store events n where
  store := by rw [hidle, storeAfter]
  fits := hfits
  cast := hcast.append
  cut k := by
    rw [hidle, List.take_nil]
    exact ⟨hfits, .inr hcast.append⟩

theorem Sincere.mem (h : Sincere s events n) (hs : n'.script = n.script) (hd : n'.store = n.store) :
    Sincere s events n' where
  store := by rw [hs, hd, h.store]
  fits := hd ▸ h.fits
  cast := by
    rw [hs, hd]
    exact h.cast
  cut := by
    rw [hs]
    exact h.cut

/-- One more effect, after which the vote on the disk is one that was cast. -/
theorem Sincere.effect (h : Sincere s events n) {e : Effect Disk} (hs : n'.script = n.script ++ [e])
    (hd : n'.store = storeAfter n.store [e]) (hfits : n'.store.currentTerm < 2 ^ 32)
    (hcast : Cast (events ++ n'.script.filterMap Effect.event) n'.store) : Sincere s events n' := by
  have hstore : storeAfter s n'.script = n'.store := by rw [hs, storeAfter_append, h.store, hd]
  refine ⟨hstore, hfits, hcast, fun k => ?_⟩
  rw [hs]
  rcases take_snoc_cases n.script e k with heq | heq
  · exact heq ▸ h.cut k
  · rw [heq, ← hs]
    exact ⟨hstore ▸ hfits, .inr (hstore ▸ hcast)⟩

/-- One more effect, which leaves term and vote alone. -/
theorem Sincere.harmless (h : Sincere s events n) {e : Effect Disk}
    (hs : n'.script = n.script ++ [e]) (hd : n'.store = storeAfter n.store [e])
    (ht : n'.store.currentTerm = n.store.currentTerm)
    (hv : n'.store.votedFor = n.store.votedFor) : Sincere s events n' := by
  refine h.effect hs hd (ht ▸ h.fits) ?_
  rw [hs, List.filterMap_append, ← List.append_assoc]
  refine Cast.append fun hne => ?_
  rw [ht, hv]
  exact h.cast (hv ▸ hne)

theorem Sincere.note (h : Sincere s events n) (event : Event) : Sincere s events (n.note event) :=
  h.harmless rfl rfl rfl rfl

theorem Sincere.setElectionTimer (h : Sincere s events n) (env : Env) :
    Sincere s events (n.setElectionTimer env) := h.mem rfl rfl

theorem Sincere.votesReceived (h : Sincere s events n) (votes : ℕ) :
    Sincere s events { n with votesReceived := votes } := h.mem rfl rfl

theorem Sincere.quiet (h : Sincere s events n) (hq : Quiet n n') : Sincere s events n' := by
  induction hq with
  | refl => exact h
  | tail _ hs ih =>
      cases hs with
      | mem hs hd => exact ih.mem hs hd
      | put ht hv => exact ih.harmless rfl rfl ht hv
      | send => exact ih.harmless rfl rfl rfl rfl
      | note => exact ih.note _
      | exit => exact ih.harmless rfl rfl rfl rfl

theorem set_set (n : Node Disk) (term vote : ℕ) (event : Option Event) :
    (n.set .currentTerm term).set .votedFor vote event =
      (n.put { n.store with currentTerm := u32 term }).put
        { n.store with currentTerm := u32 term, votedFor := u32 vote } event := by
  rw [set, set, Disk.set_currentTerm, put_store, Disk.set_votedFor]

/-- A new term and the vote that goes with it, by a node that has stored nothing yet. -/
theorem Sincere.newTerm (h : Sincere s events n) (hsame : n.store = s) (term vote : ℕ)
    (event : Option Event) (hterm : term < 2 ^ 32)
    (hvote : vote = pfNoVote ∨ event = some (.vote term vote))
    (hs : n'.script = n.script ++ [.store { n.store with currentTerm := term } none] ++
      [.store { n.store with currentTerm := term, votedFor := vote } event])
    (hd : n'.store = { n.store with currentTerm := term, votedFor := vote }) :
    Sincere s events n' := by
  have hcast : Cast (events ++ n'.script.filterMap Effect.event) n'.store := by
    rw [hs, hd]
    intro hne
    rcases hvote with hnone | hevent
    · exact absurd hnone hne
    · simp [hevent, Effect.event]
  have hstore : storeAfter s n'.script = n'.store := by rw [hs, hd]; simp [storeAfter]
  refine ⟨hstore, by rw [hd]; exact hterm, hcast, fun k => ?_⟩
  rw [hs]
  rcases take_snoc_cases _ _ k with heq | heq
  · rw [heq]
    rcases take_snoc_cases n.script (.store { n.store with currentTerm := term } none) k with
      heq | heq
    · exact heq ▸ h.cut k
    · rw [heq]
      refine ⟨by simpa [storeAfter] using hterm, ?_⟩
      by_cases hcur : term = s.currentTerm
      · -- the same term once more
        refine .inr ?_
        have hd : storeAfter s (n.script ++ [.store { n.store with currentTerm := term } none]) =
            n.store := by
          rw [storeAfter_append, storeAfter, storeAfter, hcur, ← hsame]
        rw [hd, List.filterMap_append, ← List.append_assoc]
        exact h.cast.append
      · by_cases hv : n.store.votedFor = pfNoVote
        · refine .inr fun hne => absurd ?_ hne
          simpa [storeAfter] using hv
        · exact .inl (by simpa [Torn] using ⟨hcur, hv⟩)
  · rw [heq, ← hs]
    exact ⟨by rw [hstore, hd]; exact hterm, .inr (hstore ▸ hcast)⟩

/-! ### The transitions -/

theorem becomeFollower_sincere (h : Sincere s events n) (hsame : n.store = s) (env : Env)
    (term leaderId : ℕ) : Sincere s events (n.becomeFollower env term leaderId) := by
  refine (h.note (.becameFollower term)).newTerm hsame (u32 term) (u32 pfNoVote) none (u32_lt term)
    (.inl (u32_of_nat (by decide))) ?_ ?_
  · rfl
  · rfl

theorem broadcastRequestVote_sincere (h : Sincere s events n) :
    Sincere s events n.broadcastRequestVote := by
  unfold broadcastRequestVote
  dsimp only
  split
  · exact h
  · refine forOthers_induct (motive := fun _ m => Sincere s events m) n h fun k m _ hm => ?_
    split
    · exact hm
    · exact hm.harmless rfl rfl rfl rfl

theorem startElection_sincere (h : Sincere s events n) (hsame : n.store = s)
    (hid : n.config.id < 2 ^ 32) (env : Env) : Sincere s events (n.startElection env) := by
  unfold startElection
  dsimp only
  split
  · exact h
  · generalize hterm : u32 (u32 (n.get .currentTerm) + 1) = term
    have hlt : term < 2 ^ 32 := hterm ▸ u32_lt _
    refine broadcastRequestVote_sincere ?_
    have hset : Sincere s events ((n.set .currentTerm term).set .votedFor
        (n.set .currentTerm term).config.id
        (some (.vote term (n.set .currentTerm term).config.id))) := by
      rw [set_config, set_set]
      refine h.newTerm hsame (u32 term) (u32 n.config.id) (some (.vote term n.config.id))
        (u32_lt term) (.inr (by rw [u32_of_nat hlt, u32_of_nat hid])) ?_ ?_
      · rw [put_script, put_script]
      · rw [put_store]
    exact (hset.votesReceived 1).setElectionTimer env

theorem grant_sincere (h : Sincere s events n) (env : Env) {req : RequestVoteReq}
    (hcand : req.candidateId < 2 ^ 32) :
    Sincere s events (n.grant env n.store.currentTerm req) := by
  have hset : Sincere s events (n.set .votedFor req.candidateId
      (some (.vote n.store.currentTerm req.candidateId))) := by
    refine h.effect rfl rfl h.fits fun _ => ?_
    show .vote n.store.currentTerm (u32 req.candidateId) ∈ events ++ (n.script ++
      [Effect.store { n.store with votedFor := u32 req.candidateId }
        (some (.vote n.store.currentTerm req.candidateId))]).filterMap Effect.event
    rw [u32_of_nat hcand]
    simp [Effect.event]
  unfold grant
  generalize n.set .votedFor req.candidateId (some (.vote n.store.currentTerm req.candidateId)) = m
    at hset ⊢
  exact (hset.setElectionTimer env).harmless rfl rfl rfl rfl

theorem decideVote_sincere (h : Sincere s events n) (env : Env) {curTerm : ℕ} {req : RequestVoteReq}
    (hcur : curTerm = n.store.currentTerm) (hcand : req.candidateId < 2 ^ 32) :
    Sincere s events (n.decideVote env curTerm req) := by
  subst hcur
  rcases decideVote_cases env n le_rfl req with hidle | heq
  · exact h.quiet hidle.quiet
  · rw [heq]
    exact grant_sincere h env hcand

theorem becomeLeader_sincere (h : Sincere s events n) (env : Env) :
    Sincere s events (n.becomeLeader env) := by
  have hnote := h.note (.becameLeader (u32 (n.get .currentTerm)))
  unfold becomeLeader
  dsimp only
  generalize n.note (.becameLeader (u32 (n.get .currentTerm))) = m at hnote ⊢
  refine Sincere.quiet ?_ (sendHeartbeats_quiet _)
  exact hnote.mem rfl rfl

/-- Wherever a handler is cut, it leaves a sound disk. -/
theorem handle_sincere (h : Sincere n.store events n) (hid : n.config.id < 2 ^ 32) {input : Input}
    (hwf : input.WellFormed) : Sincere n.store events (n.handle input) := by
  have hcur : u32 (n.get .currentTerm) = n.store.currentTerm := by
    rw [get_currentTerm, u32_i32, u32_of_nat h.fits]
  cases input with
  | timeout env =>
      rw [handle]
      rcases raftHandleTimeout_cases env n with hidle | ⟨-, heq⟩ | ⟨-, heq⟩
      · exact h.quiet hidle.quiet
      · rw [heq]
        unfold becomeCandidate
        dsimp only
        exact startElection_sincere (n := { n with
          role := .candidate
          leaderId := noLeader
          votesReceived := 0
          heartbeatTelemetry := n.heartbeatTelemetry.reset }) (h.mem rfl rfl) rfl hid env
      · rw [heq]
        exact startElection_sincere h rfl hid env
  | packet env pkt =>
      rw [handle]
      split
      · exact h
      · rw [raftHandleRpc]
        cases hrpc : pkt.rpc with
        | appendEntriesReq req =>
            have hreq : req.term < 2 ^ 32 := by
              rw [Input.WellFormed, hrpc] at hwf
              exact hwf.1
            dsimp only
            rcases handleAppendEntriesRequest_cases env n hreq with hidle | ⟨-, hidle⟩ | ⟨-, -, hidle⟩
            · exact h.quiet hidle.quiet
            · exact (becomeFollower_sincere h rfl env _ _).quiet hidle.quiet
            · have hmem : Sincere n.store events { n with leaderId := req.leaderId } := h.mem rfl rfl
              exact hmem.quiet hidle.quiet
        | appendEntriesRes resp =>
            dsimp only
            rcases handleAppendEntriesResponse_cases env n pkt.src resp with
              ⟨-, heq⟩ | heq | ⟨-, -, ⟨-, hidle⟩ | ⟨-, -, heq⟩⟩
            · rw [heq]
              exact becomeFollower_sincere h rfl env _ _
            · rw [heq]
              exact h
            · have hcredit : Sincere n.store events (n.credit pkt.src resp) := h.mem rfl rfl
              exact hcredit.quiet hidle.quiet
            · rw [heq]
              exact h.mem rfl rfl
        | requestVoteReq req =>
            rw [Input.WellFormed, hrpc] at hwf
            obtain ⟨hreq, hcand⟩ := hwf
            dsimp only
            rcases handleRequestVoteRequest_cases env n pkt.src req with hidle | ⟨-, heq⟩ | ⟨ht, heq⟩
            · exact h.quiet hidle.quiet
            · rw [heq]
              refine decideVote_sincere (becomeFollower_sincere h rfl env _ _) env ?_ hcand
              exact (u32_of_nat hreq).symm
            · rw [heq]
              exact decideVote_sincere h env (ht.trans hcur) hcand
        | requestVoteRes resp =>
            dsimp only
            rcases handleRequestVoteResponse_cases env n pkt.src resp with
              heq | ⟨-, -, heq⟩ | ⟨-, -, -, heq⟩
            · rw [heq]
              exact h
            · rw [heq]
              exact becomeFollower_sincere h rfl env _ _
            · have hcount : Sincere n.store events n.countVote := h.mem rfl rfl
              rw [heq]
              split
              · exact becomeLeader_sincere hcount env
              · exact hcount
        | procReq req => exact h.quiet (handleProcRequest_quiet n req pkt.src)
        | procRes resp => exact h

end Node

/-! ### A whole life -/

variable {config : Config} {l : Life}

/-- The process does not end between the write of a new term and that of the vote
that goes with it, while the disk holds a vote. -/
def Whole (l : Life) (m : Move) : Prop := ¬Torn l.node.store (l.effects m)

instance (l : Life) (m : Move) : Decidable (Whole l m) := inferInstanceAs (Decidable (¬_))

theorem Lives.sound (hid : config.id < 2 ^ 32) (hl : Lives config Whole l) :
    l.node.config = config ∧ l.node.store.currentTerm < 2 ^ 32 ∧ Cast l.events l.node.store := by
  refine hl.invariant
    (P := fun l => l.node.config = config ∧ l.node.store.currentTerm < 2 ^ 32 ∧
      Cast l.events l.node.store) ⟨rfl, Nat.two_pow_pos 32, fun hne => absurd rfl hne⟩ ?_
  intro l m hl ⟨hconfig, hfits, hcast⟩ hwf hwhole
  have hsincere := Node.handle_sincere (Node.sincere_of_idle hl.idle hfits hcast) (hconfig ▸ hid) hwf
  have hkeep := Node.handle_config l.node hwf
  cases m with
  | run input =>
      dsimp only [Move.input] at hsincere hkeep
      unfold Life.move
      dsimp only
      split
      · exact ⟨rfl, hsincere.fits, hsincere.cast⟩
      · exact ⟨hkeep.trans hconfig, hsincere.fits, hsincere.cast⟩
  | crash input k =>
      obtain ⟨hlt, hcut⟩ := hsincere.cut k
      exact ⟨rfl, hlt, hcut.resolve_left hwhole⟩

/-- The vote a node finds on its disk is one it cast, in the term it finds there, in
every life in which no process ends between the two writes of a new term. -/
theorem restart_vote_cast (hid : config.id < 2 ^ 32) (hl : Lives config Whole l)
    (hv : l.node.store.votedFor ≠ pfNoVote) :
    .vote l.node.store.currentTerm l.node.store.votedFor ∈ l.events :=
  (hl.sound hid).2.2 hv

/-- Node 0 stands, is stopped as soon as both writes are done, and finds its own vote. -/
theorem restart_vote_cast_own : ∃ l, Lives (.plain 3 0) Whole l ∧
    l.node.store.votedFor = 0 ∧ .vote 1 0 ∈ l.events := by
  have hlife : ∃ l, Lives (.plain 3 0) Whole l ∧
      l.node.store.currentTerm = 1 ∧ l.node.store.votedFor = 0 :=
    Lives.exists_of_moves (P := fun l => l.node.store.currentTerm = 1 ∧ l.node.store.votedFor = 0)
      [.crash (.timeout ⟨0, 0⟩) 2] (by decide +kernel)
  obtain ⟨l, hl, hterm, hvote⟩ := hlife
  have hcast := restart_vote_cast (by decide) hl (by rw [hvote]; decide)
  rw [hterm, hvote] at hcast
  exact ⟨l, hl, hvote, hcast⟩

/-- Node 0 stands twice and is stopped when term 2 is written and its vote is not:
it finds a vote of term 2 that nobody cast. -/
theorem restart_invents_vote : ∃ l, Lives (.plain 3 0) (fun _ _ => True) l ∧
    l.node.store = ⟨2, 0, []⟩ ∧ .vote 2 0 ∉ l.events :=
  Lives.exists_of_moves (P := fun l => l.node.store = ⟨2, 0, []⟩ ∧ .vote 2 0 ∉ l.events)
    [.run (.timeout ⟨0, 0⟩), .crash (.timeout ⟨0, 0⟩) 1] (by decide +kernel)

end GeoRaft
