import GeoRaft.Cluster.Indexes
import GeoRaft.Node.Candidacy
import GeoRaft.Node.Responses

/-!
Whom a node takes for the leader.

A request with entries names its leader. A node that a packet of a later term makes a
follower takes the sender for the leader of that term, which a candidate or a voter need
not be. In the runs where no such packet arrives the hint of a node is right.
-/

namespace GeoRaft

open Word

namespace Node

/-- The packet makes the node a follower of its sender, who may lead or not. -/
def StepsDown (n : Node Disk) (pkt : Pkt) : Prop :=
  match pkt.rpc with
  | .appendEntriesRes resp => n.store.currentTerm < resp.term
  | .requestVoteReq req => n.store.currentTerm < req.term
  | .requestVoteRes resp => n.role = .candidate ∧ n.store.currentTerm < resp.term
  | _ => False

instance (n : Node Disk) (pkt : Pkt) : Decidable (n.StepsDown pkt) := by
  unfold StepsDown
  split <;> infer_instance

/-- What a packet does to the role, the term and the leader of a node. -/
inductive HintStep (n n' : Node Disk) (pkt : Pkt) : Prop
  | same (hr : n'.role = n.role) (hl : n'.leaderId = n.leaderId)
      (ht : n'.store.currentTerm = n.store.currentTerm)
  | leads (hr : n'.role = .leader)
  | stepsDown (h : n.StepsDown pkt) (hr : n'.role = .follower) (hl : n'.leaderId = pkt.src)
      (ht : n'.store.currentTerm = pkt.rpc.term)
  | follows (req : AppendEntriesReq) (hrpc : pkt.rpc = .appendEntriesReq req)
      (hr : n'.role ≠ .candidate) (hl : n'.leaderId = req.leaderId)
      (ht : n'.store.currentTerm = req.term)

variable {n n' : Node Disk}

theorem Idles.hintStep {pkt : Pkt} (h : Idles n n') : HintStep n n' pkt :=
  .same h.keeps.role h.keeps.leaderId h.quiet.currentTerm

theorem raftHandleRpc_hint (env : Env) {pkt : Pkt} (hn : n.store.currentTerm < 2 ^ 31)
    (hpkt : pkt.rpc.term < 2 ^ 31) : HintStep n (n.raftHandleRpc env pkt) pkt := by
  have hterm : u32 (n.get .currentTerm) = n.store.currentTerm := u32_get_currentTerm (by omega)
  unfold raftHandleRpc
  cases hrpc : pkt.rpc with
  | appendEntriesReq req =>
      rw [hrpc] at hpkt
      have hreq : req.term < 2 ^ 31 := hpkt
      obtain ⟨hfollow, hrole⟩ := becomeFollower_term_role env n hreq req.leaderId
      dsimp only
      rcases handleAppendEntriesRequest_cases env n (by omega : req.term < 2 ^ 32) with
        hidle | ⟨-, hidle⟩ | ⟨ht, hr, hidle⟩
      · exact hidle.hintStep
      · refine .follows req hrpc ?_ hidle.keeps.leaderId (hidle.quiet.currentTerm.trans hfollow)
        rw [hidle.keeps.role, hrole]
        decide
      · refine .follows req hrpc ?_ hidle.keeps.leaderId (hidle.quiet.currentTerm.trans ?_)
        · rw [hidle.keeps.role]
          exact hr
        · exact hterm.symm.trans ht.symm
  | appendEntriesRes resp =>
      rw [hrpc] at hpkt
      obtain ⟨hfollow, hrole⟩ := becomeFollower_term_role env n hpkt pkt.src
      dsimp only
      rcases handleAppendEntriesResponse_cases env n pkt.src resp with
        ⟨hlt, heq⟩ | heq | ⟨-, -, ⟨-, hidle⟩ | ⟨-, -, heq⟩⟩
      · rw [heq]
        refine .stepsDown ?_ hrole rfl (by rw [hrpc]; exact hfollow)
        rw [StepsDown, hrpc]
        exact hterm ▸ hlt
      · rw [heq]
        exact (Idles.refl n).hintStep
      · exact .same hidle.keeps.role hidle.keeps.leaderId hidle.quiet.currentTerm
      · rw [heq]
        exact .same rfl rfl rfl
  | requestVoteReq req =>
      rw [hrpc] at hpkt
      obtain ⟨hfollow, hrole⟩ := becomeFollower_term_role env n hpkt pkt.src
      dsimp only
      rcases handleRequestVoteRequest_cases env n pkt.src req with hidle | ⟨hlt, heq⟩ | ⟨-, heq⟩
      · exact hidle.hintStep
      · rw [heq]
        obtain ⟨ht, hr⟩ := decideVote_term_role env (n.becomeFollower env req.term pkt.src) req.term req
        refine .stepsDown ?_ (hr.trans hrole) (decideVote_keeps env _ _ _).leaderId
          (by rw [hrpc]; exact ht.trans hfollow)
        rw [StepsDown, hrpc]
        exact hterm ▸ hlt
      · rw [heq]
        obtain ⟨ht, hr⟩ := decideVote_term_role env n req.term req
        exact .same hr (decideVote_keeps env _ _ _).leaderId ht
  | requestVoteRes resp =>
      rw [hrpc] at hpkt
      obtain ⟨hfollow, hrole⟩ := becomeFollower_term_role env n hpkt pkt.src
      dsimp only
      rcases handleRequestVoteResponse_cases env n pkt.src resp with
        heq | ⟨hc, hlt, heq⟩ | ⟨-, -, -, heq⟩
      · rw [heq]
        exact (Idles.refl n).hintStep
      · rw [heq]
        refine .stepsDown ?_ hrole rfl (by rw [hrpc]; exact hfollow)
        rw [StepsDown, hrpc]
        exact ⟨hc, hterm ▸ hlt⟩
      · rw [heq]
        split
        · exact .leads (becomeLeader_role env _)
        · exact .same rfl rfl rfl
  | procReq req => exact (handleProcRequest_idles n req pkt.src).hintStep
  | procRes resp => exact (Idles.refl n).hintStep

/-- What such a packet always does. -/
theorem raftHandleRpc_stepsDown (env : Env) {pkt : Pkt} (hn : n.store.currentTerm < 2 ^ 31)
    (hpkt : pkt.rpc.term < 2 ^ 31) (h : n.StepsDown pkt) :
    (n.raftHandleRpc env pkt).role = .follower ∧ (n.raftHandleRpc env pkt).leaderId = pkt.src ∧
      (n.raftHandleRpc env pkt).store.currentTerm = pkt.rpc.term := by
  have hterm : u32 (n.get .currentTerm) = n.store.currentTerm := u32_get_currentTerm (by omega)
  have hnonneg : ¬n.get .currentTerm < 0 := by
    rw [get_currentTerm, i32_of_nat (by omega)]
    omega
  obtain ⟨hfollow, hrole⟩ := becomeFollower_term_role env n hpkt pkt.src
  unfold raftHandleRpc
  unfold StepsDown at h
  cases hrpc : pkt.rpc with
  | appendEntriesReq req =>
      rw [hrpc] at h
      exact h.elim
  | appendEntriesRes resp =>
      rw [hrpc] at h hfollow hrole
      have hlt : n.store.currentTerm < resp.term := h
      dsimp only
      rw [handleAppendEntriesResponse, hterm, if_pos hlt]
      exact ⟨hrole, rfl, hfollow⟩
  | requestVoteReq req =>
      rw [hrpc] at h hfollow hrole
      have hlt : n.store.currentTerm < req.term := h
      dsimp only
      rw [handleRequestVoteRequest, hterm, if_neg hnonneg, if_neg (by omega), if_pos hlt]
      obtain ⟨ht, hr⟩ := decideVote_term_role env (n.becomeFollower env req.term pkt.src) req.term req
      exact ⟨hr.trans hrole, (decideVote_keeps env _ _ _).leaderId, ht.trans hfollow⟩
  | requestVoteRes resp =>
      rw [hrpc] at h hfollow hrole
      obtain ⟨hc, hlt⟩ := h
      dsimp only
      rw [handleRequestVoteResponse, hterm, if_neg (not_not.mpr hc), if_pos hlt]
      exact ⟨hrole, rfl, hfollow⟩
  | procReq req =>
      rw [hrpc] at h
      exact h.elim
  | procRes resp =>
      rw [hrpc] at h
      exact h.elim

end Node

/-- The step delivers such a packet to `i`, and its sender does not lead. -/
def misled (c : Cluster) (i : ℕ) : Action → Bool
  | .deliver k _ => (c.world.sent[k]?).any fun pkt =>
    decide (pkt.dst = i ∧ (c.node i).StepsDown pkt ∧ ¬Election.Won c.world pkt.src pkt.rpc.term)
  | _ => false

/-- The node that a node takes for the leader has won the term. -/
def HintRight (w : World) (n : Node Disk) : Prop :=
  n.role ≠ .leader → n.leaderId ≠ noLeader → Election.Won w n.leaderId n.store.currentTerm

instance (w : World) (n : Node Disk) : Decidable (HintRight w n) :=
  inferInstanceAs (Decidable (_ → _ → _))

namespace Replication

open ReplicatedLog Election

variable {D : Deployment} {c c' : Cluster} {a : Action} {i : ℕ}

theorem won_of_step (hs : c.step D a = some c') {j t : ℕ} (h : Won c.world j t) : Won c'.world j t := by
  obtain ⟨r, hr, hrest⟩ := h
  exact ⟨r, (Cluster.step_history hs).subset hr, hrest⟩

/-- What is kept: a candidate has no leader. -/
structure Hinted (w : World) (n : Node Disk) : Prop where
  candidate : n.role = .candidate → n.leaderId = noLeader
  right : HintRight w n

/-- The leader that a request names sent it, and has won its term. -/
theorem request_leader {ok : Cluster → Action → Cluster → Prop}
    (hok : ∀ {c a c'}, ok c a c' → Cluster.StorageOk D c') (hc : Cluster.Run D ok c) {pkt : Pkt}
    (hpkt : pkt ∈ c.world.sent) {req : AppendEntriesReq} (hrpc : pkt.rpc = .appendEntriesReq req) :
    Won c.world req.leaderId req.term := by
  obtain ⟨g, hg, -⟩ := Run.finish hok hc
  have hsaid := hg.packets pkt hpkt
  rw [PacketOk, hrpc] at hsaid
  rw [hsaid.leaderId]
  exact hg.owner.mp hsaid.owner

theorem hinted_step {ok : Cluster → Action → Cluster → Prop}
    (hok : ∀ {c a c'}, ok c a c' → Cluster.StorageOk D c') (hc : Cluster.Run D ok c)
    (h : Hinted c.world (c.node i)) (hs : c.step D a = some c') (hno : misled c i a = false) :
    Hinted c'.world (c'.node i) := by
  have hT := tally (B := fun _ => True) hok (fun _ => .inl trivial) hc
  have hstore := Cluster.Run.storageOk hok hc
  -- role, leader and term are the same
  have hsame : ∀ n : Node Disk, n.role = (c.node i).role → n.leaderId = (c.node i).leaderId →
      n.store.currentTerm = (c.node i).store.currentTerm → Hinted c'.world n := by
    intro n hr hl ht
    refine ⟨fun hcand => hl.trans (h.candidate (hr ▸ hcand)), fun hrole hid => ?_⟩
    rw [hl] at hid ⊢
    rw [ht]
    exact won_of_step hs (h.right (hr ▸ hrole) hid)
  cases Cluster.step_node hs i with
  | still s hn =>
      rw [hn]
      exact hsame _ rfl rfl rfl
  | restart d hn =>
      rw [hn]
      exact ⟨fun _ => rfl, fun _ hid => absurd rfl hid⟩
  | @deliver k env pkt hpkt hdst hi hidle hn =>
      have hmem := List.mem_of_getElem? hpkt
      rw [hn]
      cases Node.raftHandleRpc_hint env (hstore i hi).1 (hT.packet_lt pkt hmem).2 with
      | same hr hl ht => exact hsame _ hr hl ht
      | leads hr => exact ⟨fun hcand => absurd (hr.symm.trans hcand) (by decide), fun hrole => absurd hr hrole⟩
      | stepsDown hdown hr hl ht =>
          refine ⟨fun hcand => absurd (hr.symm.trans hcand) (by decide), fun _ _ => ?_⟩
          rw [hl, ht]
          refine won_of_step hs ?_
          by_contra hwon
          simp [misled, hpkt, hdst, hdown, hwon] at hno
      | follows req hrpc hr hl ht =>
          refine ⟨fun hcand => absurd hcand hr, fun _ _ => ?_⟩
          rw [hl, ht]
          exact won_of_step hs (request_leader hok hc hmem hrpc)
  | timeout env hi hidle hn =>
      rw [hn]
      rcases Node.raftHandleTimeout_cases env (c.node i) with hidle | ⟨-, heq⟩ | ⟨hcand, heq⟩
      · exact hsame _ hidle.keeps.role hidle.keeps.leaderId hidle.quiet.currentTerm
      · have hl := (Node.becomeCandidate_stays env (c.node i)).leaderId
        rw [heq]
        exact ⟨fun _ => hl, fun _ hid => absurd hl hid⟩
      · have hl := (Node.startElection_stays env (c.node i)).leaderId.trans (h.candidate hcand)
        rw [heq]
        exact ⟨fun _ => hl, fun _ hid => absurd hl hid⟩
  | client src req hi hidle hn =>
      rw [hn]
      have hidles := Node.handleProcRequest_idles (c.node i) req src
      exact hsame _ hidles.keeps.role hidles.keeps.leaderId hidles.quiet.currentTerm

theorem hinted {ok : Cluster → Action → Cluster → Prop}
    (hok : ∀ {c a c'}, ok c a c' → Cluster.StorageOk D c' ∧ misled c i a = false)
    (hc : Cluster.Run D ok c) : Hinted c.world (c.node i) := by
  refine hc.invariant (P := fun c => Hinted c.world (c.node i))
    ⟨fun _ => rfl, fun _ hid => absurd rfl hid⟩ ?_
  exact fun hc ih hs h => hinted_step (fun h => (hok h).1) hc ih hs (hok h).2

/-- A node that is misled has a wrong hint at once. -/
theorem wrong_of_misled (hc : Cluster.Reachable D c) (hs : c.step D a = some c')
    (hmis : misled c i a = true) : ¬HintRight c'.world (c'.node i) := by
  have hT := tally (B := fun _ => True) (fun h => h) (fun _ => .inl trivial) hc
  have hstore := Cluster.Run.storageOk (fun h => h) hc
  cases a with
  | deliver k env =>
      obtain ⟨pkt, hpkt, hdown⟩ := (Option.any_eq_true _ _).mp hmis
      obtain ⟨rfl, hdown, hwon⟩ := of_decide_eq_true hdown
      have hpkt : c.world.sent[k]? = some pkt := hpkt
      simp only [Cluster.step, hpkt] at hs
      split at hs
      · rename_i hcond
        obtain rfl := Option.some.inj hs
        obtain ⟨hsrc, hlt⟩ := hT.packet_lt pkt (List.mem_of_getElem? hpkt)
        obtain ⟨hr, hl, ht⟩ := Node.raftHandleRpc_stepsDown env (hstore _ hcond.2.1).1 hlt hdown
        have hfits := D.fits
        have hno : pkt.src ≠ noLeader := by
          unfold pfNoVote at hfits
          unfold noLeader
          omega
        intro hright
        simp only [HintRight, Cluster.setNode, Function.update_self, hr, hl, ht] at hright
        exact hwon (hright (by decide) hno)
      · cases hs
  | lose _ | timeout _ _ | client _ _ _ | exec _ | crash _ => cases hmis

/-- The hint of a node is right in every run that does not mislead it, and a step that
does makes it wrong. -/
theorem leader_hints (D : Deployment) (i : ℕ) :
    (∀ c, Cluster.Run D (fun c a c' => Cluster.StorageOk D c' ∧ misled c i a = false) c →
      HintRight c.world (c.node i)) ∧
    ∀ c c' a, Cluster.Reachable D c → c.step D a = some c' → misled c i a = true →
      ¬HintRight c'.world (c'.node i) :=
  ⟨fun _ hc => (hinted (fun h => h) hc).right, fun _ _ _ hc hs h => wrong_of_misled hc hs h⟩

/-- Node 0 asks for votes, and node 1 takes it for the leader of the term. -/
theorem hint_wrong : ∃ c, Cluster.Reachable (.plain 3 (by decide)) c ∧
    (c.node 1).role = .follower ∧ (c.node 1).leaderId = 0 ∧ (c.node 1).store.currentTerm = 1 ∧
      ¬Won c.world 0 1 :=
  Cluster.Run.exists_of_actions (D := .plain 3 (by decide))
    (P := fun c => (c.node 1).role = .follower ∧ (c.node 1).leaderId = 0 ∧
      (c.node 1).store.currentTerm = 1 ∧ ¬Won c.world 0 1)
    ([.timeout 0 ⟨0, 0⟩] ++ Action.execs 0 4 ++ [.deliver 0 ⟨0, 0⟩]) (by decide +kernel)

/-- Node 2 votes for node 0, and node 1 hears of it by a heartbeat. -/
theorem leader_hints_heartbeat : ∃ c, Cluster.Reachable (.plain 3 (by decide)) c ∧
    (c.node 1).leaderId = 0 ∧ Won c.world 0 1 := by
  have hrun : ∃ c, Cluster.Run (.plain 3 (by decide)) (fun c a c' =>
      Cluster.StorageOk (.plain 3 (by decide)) c' ∧ misled c 1 a = false) c ∧
      (c.node 1).role = .follower ∧ (c.node 1).leaderId = 0 ∧ (c.node 1).store.currentTerm = 1 :=
    Cluster.Run.exists_of_actions (P := fun c => (c.node 1).role = .follower ∧
      (c.node 1).leaderId = 0 ∧ (c.node 1).store.currentTerm = 1)
      (served ++ [.deliver 3 ⟨0, 0⟩] ++ Action.execs 1 4) (by decide +kernel)
  obtain ⟨c, hc, hr, hl, ht⟩ := hrun
  have hright := (leader_hints (.plain 3 (by decide)) 1).1 c hc
  rw [HintRight, hr, hl, ht] at hright
  exact ⟨c, hc.mono fun _ _ _ h => h.1, hl, hright (by decide) (by decide)⟩

end Replication

end GeoRaft
