import GeoRaft.Cluster.Leaders
import GeoRaft.Node.Handlers

/-!
The two indexes a leader keeps for every other node.

A success overwrites both and a failure steps the next index back, whatever the
leader knew before. Responses that come late can thus take a match index back,
or step the next index down to it. In the runs where neither happens a match
index only grows and the next index stays ahead of it.
-/

namespace GeoRaft

open Word

namespace Node

/-- The leader forgets an acknowledged index, or steps back to one. -/
def Regresses (n : Node Disk) (srcId : ℕ) (resp : AppendEntriesRes) : Prop :=
  n.role = .leader ∧ resp.term = u32 (n.get .currentTerm) ∧
    (resp.success ≠ 0 ∧ i32 resp.newMatchIndex < n.matchIndex.getD srcId (-1) ∨
      resp.success = 0 ∧ 0 < n.nextIndex.getD srcId 0 ∧
        (n.nextIndex.getD srcId 0 : ℤ) ≤ n.matchIndex.getD srcId (-1) + 1)

instance (n : Node Disk) (srcId : ℕ) (resp : AppendEntriesRes) : Decidable (n.Regresses srcId resp) :=
  inferInstanceAs (Decidable (_ ∧ _))

variable {n : Node Disk}

theorem commitLoop_store (curTerm : ℕ) (logLen : ℤ) (n : Node Disk) :
    (n.commitLoop curTerm logLen).store = n.store := by
  unfold commitLoop
  refine foldl_range_induct (motive := fun _ (m : Node Disk) => m.store = n.store) _ rfl
    fun k m _ hm => ?_
  unfold tryCommit
  split
  · exact hm
  · split
    · exact hm
    · exact hm

/-- A response of the node's own term leaves its storage alone. -/
theorem handleAppendEntriesResponse_store (env : Env) (n : Node Disk) (srcId : ℕ)
    {resp : AppendEntriesRes} (ht : resp.term = u32 (n.get .currentTerm)) :
    (n.handleAppendEntriesResponse env srcId resp).store = n.store := by
  generalize hm : n.handleAppendEntriesResponse env srcId resp = m
  unfold handleAppendEntriesResponse at hm
  dsimp only at hm
  rw [if_neg (by omega)] at hm
  split at hm
  · rw [← hm]
  split at hm
  · rw [← hm, applyToStateMachine_store, commitLoop_store]
  split at hm
  · rw [← hm]
  · rw [← hm]

/-- The indexes of a node that leads after a packet. -/
inductive IndexStep (n n' : Node Disk) (pkt : Pkt) : Prop
  | same (hr : n.role = .leader) (hm : n'.matchIndex = n.matchIndex)
      (hx : n'.nextIndex = n.nextIndex)
  | won (hr : n.role = .candidate) (hm : n'.matchIndex = List.replicate n.config.numNodes (-1))
  | success (resp : AppendEntriesRes) (hrpc : pkt.rpc = .appendEntriesRes resp)
      (hr : n.role = .leader) (ht : resp.term = u32 (n.get .currentTerm)) (hs : resp.success ≠ 0)
      (hm : n'.matchIndex = n.matchIndex.set pkt.src (i32 resp.newMatchIndex))
      (hx : n'.nextIndex = n.nextIndex.set pkt.src (u32 n.logLength))
      (hd : n'.store = n.store)
  | failure (resp : AppendEntriesRes) (hrpc : pkt.rpc = .appendEntriesRes resp)
      (hr : n.role = .leader) (ht : resp.term = u32 (n.get .currentTerm)) (hs : resp.success = 0)
      (hpos : 0 < n.nextIndex.getD pkt.src 0) (hm : n'.matchIndex = n.matchIndex)
      (hx : n'.nextIndex = n.nextIndex.modify pkt.src (· - 1))

theorem Keeps.indexStep {n' : Node Disk} {pkt : Pkt} (h : Keeps n n') (hr : n'.role = .leader) :
    IndexStep n n' pkt :=
  .same (h.role ▸ hr) h.matchIndex h.nextIndex

theorem raftHandleRpc_indexes (env : Env) {pkt : Pkt} (hpkt : pkt.rpc.term < 2 ^ 32)
    (hr : (n.raftHandleRpc env pkt).role = .leader) :
    IndexStep n (n.raftHandleRpc env pkt) pkt := by
  have hfollower : ∀ {t l} {m : Node Disk}, Keeps (n.becomeFollower env t l) m →
      ¬m.role = .leader := by
    intro t l m hm hr
    rw [hm.role] at hr
    cases hr
  unfold raftHandleRpc at hr ⊢
  cases hrpc : pkt.rpc with
  | appendEntriesReq req =>
      rw [hrpc] at hpkt
      simp only [hrpc] at hr ⊢
      rcases handleAppendEntriesRequest_cases env n hpkt with hidle | ⟨-, hidle⟩ | ⟨-, -, hidle⟩
      · exact hidle.keeps.indexStep hr
      · exact absurd hr (hfollower hidle.keeps)
      · have hk := hidle.keeps
        exact .same (hk.role ▸ hr) hk.matchIndex hk.nextIndex
  | appendEntriesRes resp =>
      simp only [hrpc] at hr ⊢
      rcases handleAppendEntriesResponse_cases env n pkt.src resp with
        ⟨-, heq⟩ | heq | ⟨hlead, ht, ⟨hs, hidle⟩ | ⟨hs, hpos, heq⟩⟩
      · rw [heq] at hr
        exact absurd hr (hfollower (.refl _))
      · rw [heq] at hr ⊢
        exact (Keeps.refl n).indexStep hr
      · have hk := hidle.keeps
        exact .success resp hrpc hlead ht hs hk.matchIndex hk.nextIndex
          (handleAppendEntriesResponse_store env n pkt.src ht)
      · rw [heq]
        exact .failure resp hrpc hlead ht hs hpos rfl rfl
  | requestVoteReq req =>
      simp only [hrpc] at hr ⊢
      rcases handleRequestVoteRequest_cases env n pkt.src req with hidle | ⟨-, heq⟩ | ⟨ht, heq⟩
      · exact hidle.keeps.indexStep hr
      · rw [heq] at hr
        exact absurd hr (hfollower (decideVote_keeps env _ _ _))
      · rw [heq] at hr ⊢
        exact (decideVote_keeps env n _ _).indexStep hr
  | requestVoteRes resp =>
      simp only [hrpc] at hr ⊢
      rcases handleRequestVoteResponse_cases env n pkt.src resp with
        heq | ⟨-, -, heq⟩ | ⟨hc, -, -, heq⟩
      · rw [heq] at hr ⊢
        exact (Keeps.refl n).indexStep hr
      · rw [heq] at hr
        exact absurd hr (hfollower (.refl _))
      · rw [heq] at hr ⊢
        split
        · exact .won hc (becomeLeader_matchIndex env _)
        · rename_i hlow
          rw [if_neg hlow] at hr
          have hcand : n.role = .leader := hr
          rw [hc] at hcand
          cases hcand
  | procReq req =>
      simp only [hrpc] at hr ⊢
      exact (handleProcRequest_keeps n req pkt.src).indexStep hr
  | procRes resp =>
      simp only [hrpc] at hr ⊢
      exact (Keeps.refl n).indexStep hr

end Node

/-- The step delivers a response by which node `l` regresses as a leader. -/
def regresses (c : Cluster) (l : ℕ) : Action → Bool
  | .deliver k _ => (c.world.sent[k]?).any fun pkt =>
    match pkt.rpc with
    | .appendEntriesRes resp => decide (pkt.dst = l ∧ (c.node l).Regresses pkt.src resp)
    | _ => false
  | _ => false

/-- Every next index is ahead of its match index. -/
def Ahead (n : Node Disk) : Prop :=
  ∀ (j : ℕ) (m : ℤ) (x : ℕ), n.matchIndex[j]? = some m → n.nextIndex[j]? = some x → m < x

namespace Replication

open ReplicatedLog Election

variable {D : Deployment} {c c' : Cluster} {a : Action} {l : ℕ}

/-- The runs in which storage is reliable and node `l` does not regress as a leader. -/
abbrev Keeping (D : Deployment) (l : ℕ) : Cluster → Prop :=
  Cluster.Run D fun c a c' => Cluster.StorageOk D c' ∧ regresses c l a = false

/-- What a leader has taken for acknowledged is in its log. -/
theorem match_lt_length {ok : Cluster → Action → Cluster → Prop}
    (hok : ∀ {c a c'}, ok c a c' → Cluster.StorageOk D c') (hc : Cluster.Run D ok c)
    (hl : l < D.numNodes) (hr : (c.node l).role = .leader) {j : ℕ} {m : ℤ}
    (hm : (c.node l).matchIndex[j]? = some m) : m < (c.node l).store.log.length := by
  rcases lt_or_ge m 0 with hneg | hpos
  · omega
  · obtain ⟨g, -, hfinish⟩ := Run.finish hok hc
    obtain ⟨w', g', hg', hmem, -⟩ := hfinish l hl
    obtain ⟨-, -, hacked⟩ := hmem.leader hr
    obtain ⟨-, q, hq, hlen⟩ := hacked hm hpos
    have hle := (hg'.inv.acked hq).2.2.1.length_le
    rw [leader_log hg' hmem hr] at hle
    omega

/-- A packet does not take a match index back, nor a next index down to one. -/
theorem Ahead.deliver {env : Env} {pkt : Pkt} {n : Node Disk}
    (h : n.role = .leader → Ahead n) (hpkt : pkt.rpc.term < 2 ^ 32)
    (hlen : n.store.log.length < 2 ^ 31)
    (hno : ∀ resp, pkt.rpc = .appendEntriesRes resp → ¬n.Regresses pkt.src resp)
    (hr : (n.raftHandleRpc env pkt).role = .leader)
    (hmatch : ∀ (j : ℕ) (m : ℤ), (n.raftHandleRpc env pkt).matchIndex[j]? = some m →
      m < (n.raftHandleRpc env pkt).store.log.length) :
    Ahead (n.raftHandleRpc env pkt) ∧ (n.role = .leader → ∀ (j : ℕ) (m m' : ℤ),
      n.matchIndex[j]? = some m → (n.raftHandleRpc env pkt).matchIndex[j]? = some m' → m ≤ m') := by
  have hcases := Node.raftHandleRpc_indexes env hpkt hr
  generalize n.raftHandleRpc env pkt = n' at hr hmatch hcases ⊢
  cases hcases with
  | same hr' hm hx =>
      rw [Ahead, hm, hx]
      exact ⟨h hr', fun _ j m m' hj hj' => (Option.some.inj (hj.symm.trans hj')).le⟩
  | won hr' hm =>
      refine ⟨fun j m x hj _ => ?_, fun hlead => ?_⟩
      · rw [hm, List.getElem?_replicate] at hj
        split at hj
        · obtain rfl := Option.some.inj hj
          omega
        · cases hj
      · rw [hr'] at hlead
        cases hlead
  | success resp hrpc hr' ht hs hm hx hd =>
      have hkeep : ¬i32 resp.newMatchIndex < n.matchIndex.getD pkt.src (-1) := fun hlt =>
        hno resp hrpc ⟨hr', ht, .inl ⟨hs, hlt⟩⟩
      have hend : u32 n.logLength = n.store.log.length := by
        rw [Node.logLength_eq hlen, u32_of_nat (by omega)]
      refine ⟨fun j m x hj hjx => ?_, fun _ j m m' hj hj' => ?_⟩
      · have hlt := hmatch j m hj
        rw [hm, List.getElem?_set] at hj
        rw [hx, List.getElem?_set] at hjx
        split at hj
        · split at hjx
          · split at hjx
            · obtain rfl := Option.some.inj hjx
              rw [hd] at hlt
              omega
            · cases hjx
          · omega
        · rw [if_neg (by assumption)] at hjx
          exact h hr' j m x hj hjx
      · rw [hm, List.getElem?_set] at hj'
        split at hj'
        · rename_i heq
          subst heq
          split at hj'
          · obtain rfl := Option.some.inj hj'
            rw [List.getD_eq_getElem?_getD, hj, Option.getD_some] at hkeep
            omega
          · cases hj'
        · exact (Option.some.inj (hj.symm.trans hj')).le
  | failure resp hrpc hr' ht hs hpos hm hx =>
      have hkeep : ¬(n.nextIndex.getD pkt.src 0 : ℤ) ≤ n.matchIndex.getD pkt.src (-1) + 1 :=
        fun hle => hno resp hrpc ⟨hr', ht, .inr ⟨hs, hpos, hle⟩⟩
      refine ⟨fun j m x hj hjx => ?_, fun _ j m m' hj hj' => ?_⟩
      · rw [hm] at hj
        rw [hx, List.getElem?_modify] at hjx
        obtain ⟨y, hy, rfl⟩ := Option.map_eq_some_iff.mp hjx
        split
        · rename_i heq
          subst heq
          rw [List.getD_eq_getElem?_getD, List.getD_eq_getElem?_getD, hj, hy, Option.getD_some,
            Option.getD_some] at hkeep
          omega
        · exact h hr' j m y hj hy
      · rw [hm] at hj'
        exact (Option.some.inj (hj.symm.trans hj')).le

/-- A leader before a step: what the step does to its two indexes, if it leads after it. -/
theorem ahead_step (hc : Keeping D l c) (hl : l < D.numNodes)
    (h : (c.node l).role = .leader → Ahead (c.node l)) (hs : c.step D a = some c')
    (hok : Cluster.StorageOk D c' ∧ regresses c l a = false) (hr : (c'.node l).role = .leader) :
    Ahead (c'.node l) ∧ ((c.node l).role = .leader → c'.world.inc l = c.world.inc l →
      ∀ (j : ℕ) (m m' : ℤ), (c.node l).matchIndex[j]? = some m →
        (c'.node l).matchIndex[j]? = some m' → m ≤ m') := by
  have hT := tally (B := fun _ => True) (fun h => h.1) (fun _ => .inl trivial) hc
  have hstore := Cluster.Run.storageOk (fun h => h.1) hc
  have hmatch := fun j m => match_lt_length (j := j) (m := m) (fun h => h.1) (hc.step hs hok) hl hr
  have hsame : ∀ n : Node Disk, Node.Keeps (c.node l) n → n.role = .leader → Ahead n ∧
      ((c.node l).role = .leader → c'.world.inc l = c.world.inc l → ∀ (j : ℕ) (m m' : ℤ),
        (c.node l).matchIndex[j]? = some m → n.matchIndex[j]? = some m' → m ≤ m') := by
    intro n hk hr
    rw [Ahead, hk.matchIndex, hk.nextIndex]
    exact ⟨h (hk.role ▸ hr), fun _ _ j m m' hj hj' => (Option.some.inj (hj.symm.trans hj')).le⟩
  cases Cluster.step_node hs l with
  | still s hn =>
      rw [hn] at hr ⊢
      exact hsame _ ⟨rfl, rfl, rfl, rfl, rfl, rfl⟩ hr
  | restart d hn hinc =>
      rw [hn] at hr
      cases hr
  | @deliver k env pkt hpkt hdst hi hidle hn =>
      subst hdst
      rw [hn] at hr hmatch ⊢
      obtain ⟨hahead, hmono⟩ := Ahead.deliver h
        (by have := (hT.packet_lt _ (List.mem_of_getElem? hpkt)).2; omega) (hstore _ hi).2
        (fun resp hrpc hreg => by
          have hno := hok.2
          simp [regresses, hpkt, hrpc, hreg] at hno) hr hmatch
      exact ⟨hahead, fun hlead _ => hmono hlead⟩
  | timeout env hi hidle hn =>
      rw [hn] at hr ⊢
      rcases Node.raftHandleTimeout_cases env (c.node l) with hidle | ⟨-, heq⟩ | ⟨hcand, heq⟩
      · exact hsame _ hidle.keeps hr
      · rw [heq, (Node.becomeCandidate_stays env _).role] at hr
        cases hr
      · rw [heq, (Node.startElection_stays env _).role, hcand] at hr
        cases hr
  | client src req hi hidle hn =>
      rw [hn] at hr ⊢
      exact hsame _ (Node.handleProcRequest_keeps _ req src) hr

/-- The next index of every node is ahead of its match index, and while the leader leads
no match index falls, in every run in which it does not regress. -/
theorem leader_bookkeeping (hc : Keeping D l c) (hl : l < D.numNodes)
    (hr : (c.node l).role = .leader) :
    Ahead (c.node l) ∧ ∀ a c', c.step D a = some c' → Cluster.StorageOk D c' →
      regresses c l a = false → (c'.node l).role = .leader → c'.world.inc l = c.world.inc l →
      ∀ (j : ℕ) (m m' : ℤ), (c.node l).matchIndex[j]? = some m →
        (c'.node l).matchIndex[j]? = some m' → m ≤ m' := by
  have hahead : (c.node l).role = .leader → Ahead (c.node l) := by
    refine hc.invariant (P := fun c => (c.node l).role = .leader → Ahead (c.node l))
      (fun hr => by cases hr) ?_
    exact fun hc ih hs hok hr => (ahead_step hc hl ih hs hok hr).1
  refine ⟨hahead hr, fun a c' hs hst hno hr' hinc => ?_⟩
  exact (ahead_step hc hl hahead hs ⟨hst, hno⟩ hr').2 hr hinc

/-- Node 0 leads, knows of an entry on node 2, and its next index is ahead of it. -/
theorem leader_bookkeeping_served : ∃ c, Keeping (.plain 3 (by decide)) 0 c ∧
    (c.node 0).matchIndex[2]? = some 0 ∧ Ahead (c.node 0) := by
  have hrun : ∃ c, Keeping (.plain 3 (by decide)) 0 c ∧ (c.node 0).role = .leader ∧
      (c.node 0).matchIndex[2]? = some 0 :=
    Cluster.Run.exists_of_actions (P := fun c => (c.node 0).role = .leader ∧
      (c.node 0).matchIndex[2]? = some 0) served (by decide +kernel)
  obtain ⟨c, hc, hr, hm⟩ := hrun
  exact ⟨c, hc, hm, (leader_bookkeeping hc (l := 0) (by decide) hr).1⟩

/-- Node 2 answers a heartbeat and then a request with an entry; the answers reach the
leader the other way round, and it forgets that node 2 has the entry. -/
theorem match_index_lowered : ∃ c, Cluster.Reachable (.plain 3 (by decide)) c ∧
    (c.node 0).role = .leader ∧ (c.node 0).matchIndex[2]? = some 0 ∧
    (c.step (.plain 3 (by decide)) (.deliver 7 ⟨0, 0⟩)).any fun c' =>
      decide (Cluster.StorageOk (.plain 3 (by decide)) c' ∧ (c'.node 0).role = .leader ∧
        c'.world.inc 0 = c.world.inc 0 ∧ (c'.node 0).matchIndex[2]? = some (-1)) :=
  Cluster.Run.exists_of_actions (D := .plain 3 (by decide))
    (P := fun c => (c.node 0).role = .leader ∧ (c.node 0).matchIndex[2]? = some 0 ∧
      (c.step (.plain 3 (by decide)) (.deliver 7 ⟨0, 0⟩)).any fun c' =>
        decide (Cluster.StorageOk (.plain 3 (by decide)) c' ∧ (c'.node 0).role = .leader ∧
          c'.world.inc 0 = c.world.inc 0 ∧ (c'.node 0).matchIndex[2]? = some (-1)))
    ([.timeout 0 ⟨0, 0⟩] ++ Action.execs 0 4 ++ [.deliver 1 ⟨0, 0⟩] ++ Action.execs 2 5 ++
      [.deliver 2 ⟨0, 0⟩] ++ Action.execs 0 3 ++ [.client 0 9 ⟨9, 1, 7⟩] ++ Action.execs 0 3 ++
      [.deliver 4 ⟨0, 0⟩] ++ Action.execs 2 1 ++ [.deliver 6 ⟨0, 0⟩] ++ Action.execs 2 2 ++
      [.deliver 8 ⟨0, 0⟩] ++ Action.execs 0 4)
    (by decide +kernel)

end Replication

end GeoRaft
