import GeoRaft.Cluster.Election
import GeoRaft.Cluster.Following

/-!
Every run of a cluster is a run of the replicated log.

The handlers are put together into the obligations of the program logic, which
makes `Good` and `Memory` invariants of every run. What is left are the
properties one wants of a replicated log, each read off the invariant: logs that
match, leaders that are complete, state machines that agree.
-/

namespace GeoRaft.Replication

open ReplicatedLog Quorum Election Word Script

variable {D : Deployment} {i : ℕ} {p : World × Ghost} {n n' : Node Disk} {pkt : Pkt}

/-! ### Handlers of packets -/

theorem handleRequestVoteRequest_ok {env : Env} {req : RequestVoteReq} {src : ℕ}
    (h : (logic D).OkWith (Sent pkt) i p n) (hpkt : pkt.rpc = .requestVoteReq req)
    (hsrc : req.candidateId = pkt.src) (hterm : n.store.currentTerm < 2 ^ 31)
    (hreq : req.term < 2 ^ 31) : (logic D).Ok i p (n.handleRequestVoteRequest env src req) := by
  unfold Node.handleRequestVoteRequest
  rw [Node.get_currentTerm, i32_of_nat (by omega), if_neg (by omega), u32_of_nat (by omega)]
  dsimp only
  split
  · exact ok_send h.ok Steady.true fun _ _ _ _ _ => trivial
  split
  · have hst := Node.becomeFollower_store env n hreq src
    refine decideVote_ok (becomeFollower_ok h hreq (by omega)) hpkt hsrc ?_ rfl
    rw [hst]
  · exact decideVote_ok h hpkt hsrc rfl (by omega)

theorem handleRequestVoteResponse_ok {env : Env} {resp : RequestVoteRes} {src : ℕ}
    (h : (logic D).OkWith (Sent pkt) i p n) (hid : n.config.id = i)
    (hterm : n.store.currentTerm < 2 ^ 31) (hresp : resp.term < 2 ^ 31) :
    (logic D).Ok i p (n.handleRequestVoteResponse env src resp) := by
  unfold Node.handleRequestVoteResponse
  rw [get_currentTerm_eq hterm]
  dsimp only
  split
  · exact h.ok
  rename_i hcand
  rw [not_not] at hcand
  split
  · exact (becomeFollower_ok h hresp (by omega)).ok
  split
  · exact h.ok
  split
  · have hcount : (logic D).Ok i p { n with votesReceived := n.votesReceived + 1 } :=
      ok_mem h.ok rfl rfl rfl rfl rfl rfl rfl rfl
    split
    · exact becomeLeader_ok hcount hid hterm hcand
    · exact hcount
  · exact h.ok

/-- What the handlers need of the numbers of a node and of the packet it takes. -/
theorem raftHandleRpc_ok {env : Env} {w : World} {g : Ghost} (hat : (logic D).At i n (w, g))
    (hs : n.script = []) (hsent : pkt ∈ w.sent) (hdst : pkt.dst = i)
    (hlog' : (n.raftHandleRpc env pkt).store.log.length < 2 ^ 31) :
    (logic D).Ok i (w, g) (n.raftHandleRpc env pkt) := by
  have h : (logic D).OkWith (Sent pkt) i (w, g) n := hat.okWith hs hsent
  obtain ⟨hknown, hg, hm⟩ := hat
  have hT : Tally D.numNodes (fun _ => True) w := hknown
  have hg' : Good D.numNodes w g := hg
  have hm' : Memory D i n w g := hm
  have hterm : n.store.currentTerm < 2 ^ 31 := hm'.disk ▸ hT.term_lt i
  have hlog := hm'.log_lt hg'
  have hpos : 0 ≤ n.commitIndex + 1 := by
    obtain ⟨m, hcm, -⟩ := hm'.commit
    omega
  have hlt := (hT.packet_lt pkt hsent).2
  have hok := hg'.packets pkt hsent
  unfold Node.raftHandleRpc at hlog' ⊢
  cases hrpc : pkt.rpc with
  | appendEntriesReq req =>
      rw [hrpc] at hlt
      rw [PacketOk, hrpc] at hok
      obtain ⟨k, hk, hlen, -⟩ := hok.body
      refine handleAppendEntriesRequest_ok h hrpc hdst hterm hlt (fun hr heq => ?_) hlog hk hlen
      have hown := (hm'.leader hr).owner
      rw [← heq, hok.owner] at hown
      exact hok.ne (hdst.trans (Option.some.inj hown).symm)
  | appendEntriesRes resp =>
      rw [hrpc] at hlt
      exact handleAppendEntriesResponse_ok h hrpc hdst hterm hlt hlog hpos
  | requestVoteReq req =>
      rw [hrpc] at hlt
      exact handleRequestVoteRequest_ok h hrpc (hT.request hsent hrpc).2.1 hterm hlt
  | requestVoteRes resp =>
      rw [hrpc] at hlt
      exact handleRequestVoteResponse_ok h hm'.id_eq hterm hlt
  | procReq req =>
      rw [hrpc] at hlog'
      exact handleProcRequest_ok h.ok hm'.id_eq hterm hlog hlog'
  | procRes resp => exact h.ok

/-! ### Every run -/

/-- The replicated log before anything happened. -/
def Ghost.init : Ghost where
  term _ := 0
  log _ := []
  owner _ := none
  elect _ := []
  lead _ := []
  claim _ _ := none
  ballots := ∅
  acks := ∅

theorem inv_init (N : ℕ) : Inv (scheme N) Ghost.init where
  log_traced i k e hk := by simp [Ghost.init] at hk
  lead_traced ho := absurd rfl ho
  log_sorted i := List.Pairwise.nil
  lead_sorted ho := absurd rfl ho
  log_le i e he := by simp [Ghost.init] at he
  lead_le ho := absurd rfl ho
  elect_lt ho := absurd rfl ho
  elect_lead ho := absurd rfl ho
  owner_log ho := by simp [Ghost.init] at ho
  claim_le hc := absurd rfl hc
  acked hack := absurd hack (Set.notMem_empty _)
  voted hb := absurd hb (Set.notMem_empty _)
  elected ho := by simp [Ghost.init] at ho

theorem good_init (D : Deployment) : Good D.numNodes (Cluster.init D).world Ghost.init where
  inv := inv_init _
  term i := rfl
  log i := rfl
  log_lt i := by simp [Cluster.init, Disk.init]
  owner := by simp [Ghost.init, Won, Cluster.init]
  owner_pos ho := absurd rfl ho
  packets p hp := by simp [Cluster.init] at hp
  records r hr := by simp [Cluster.init] at hr
  chronicle :=
    { inc_le := fun r hr => by simp [Cluster.init] at hr
      applied := fun i inc => ⟨0, rfl⟩
      accept_one := fun ha => by simp [Cluster.init] at ha
      created := fun ho => absurd rfl ho
      replied := fun ha => by simp [Cluster.init] at ha }

/-- The memory of a process that has just started. -/
theorem memory_create {w : World} {g : Ghost} (hi : i < D.numNodes)
    (happ : applyOrder w i (w.inc i) = []) :
    Memory D i (raftCreate (D.config i) (w.disk i)) w g where
  lt := hi
  disk := rfl
  config := rfl
  commit := ⟨0, rfl, .inl rfl⟩
  applied := ⟨0, rfl, happ⟩
  candidate := nofun
  leader := nofun

/-- No record is of an incarnation that is still to come. -/
theorem Chronicle.applyOrder_later {N : ℕ} {w : World} {g : Ghost} (h : Chronicle N w g)
    {inc : ℕ} (hlt : w.inc i < inc) : applyOrder w i inc = [] := by
  rw [applyOrder, List.filterMap_eq_nil_iff]
  intro r hr
  have hle := h.inc_le r hr
  unfold appliedBy
  split
  · rw [if_neg]
    rintro ⟨rfl, rfl⟩
    omega
  · rfl

theorem Good.restart {c : Cluster} {g : Ghost} (hg : Good D.numNodes c.world g) (i : ℕ) :
    Good D.numNodes (c.restart D i).world g := by
  refine { hg with chronicle := hg.chronicle.mono (Grows.refl g) rfl (fun j => ?_) rfl rfl }
  by_cases hj : j = i
  · subst hj
    simp [Cluster.restart]
  · simp [Cluster.restart, hj]

theorem obligations {ok : Cluster → Action → Cluster → Prop}
    (hok : ∀ {c a c'}, ok c a c' → Cluster.StorageOk D c') : (logic D).Obligations D ok where
  init := by
    refine ⟨Ghost.init, tally_init D (fun _ => True), good_init D, fun i hi => Logic.At.okWith ?_ rfl trivial⟩
    have hm : Memory D i ((Cluster.init D).node i) (Cluster.init D).world Ghost.init :=
      memory_create (w := (Cluster.init D).world) hi rfl
    exact ⟨tally_init D (fun _ => True), good_init D, hm⟩
  consume h := by
    have hg : Good D.numNodes _ _ := h
    exact { hg with chronicle := hg.chronicle.mono (Grows.refl _) rfl (fun _ => le_rfl) rfl rfl }
  restart {c g i} h hi := by
    have hg : Good D.numNodes c.world g := h.good
    have happ : applyOrder (c.restart D i).world i ((c.restart D i).world.inc i) = [] := by
      have := hg.chronicle.applyOrder_later (i := i) (Nat.lt_succ_self (c.world.inc i))
      simpa [Cluster.restart, applyOrder] using this
    have hm : Memory D i (raftCreate (D.config i) (c.world.disk i)) (c.restart D i).world g :=
      memory_create hi happ
    exact ⟨hg.restart i, hm⟩
  deliver {c c' g k env pkt} hk hnew hdst hstep hc' hs hat hat' := by
    refine raftHandleRpc_ok hat' hs (List.mem_of_getElem? hk) rfl ?_
    have hlog := (hok hstep _ hdst).2
    rw [hc'] at hlog
    simpa [Cluster.setNode] using hlog
  timeout {c c' g i env} hi hstep hc' hs hat := by
    have hT : Tally D.numNodes (fun _ => True) c.world := hat.1
    have hm : Memory D i (c.node i) c.world g := hat.2.2
    refine raftHandleTimeout_ok (hat.okWith hs trivial) hm.id_eq (hm.disk ▸ hT.term_lt i) ?_
    have hlt := (hok hstep i hi).1
    rw [hc'] at hlt
    simpa [Cluster.setNode] using hlt
  client {c c' g i src req} hi hstep hc' hs hat := by
    have hT : Tally D.numNodes (fun _ => True) c.world := hat.1
    have hg : Good D.numNodes c.world g := hat.2.1
    have hm : Memory D i (c.node i) c.world g := hat.2.2
    refine handleProcRequest_ok (hat.okWith hs trivial) hm.id_eq (hm.disk ▸ hT.term_lt i)
      (hm.log_lt hg) ?_
    have hlog := (hok hstep i hi).2
    rw [hc'] at hlog
    simpa [Cluster.setNode] using hlog

theorem holds {c : Cluster} (hc : Cluster.Reachable D c) : ∃ g, (logic D).Holds D c g :=
  Logic.run (obligations fun h => h) (fun hc => tally (B := fun _ => True) (fun h => h) (fun _ => .inl trivial) hc) hc

theorem good {c : Cluster} (hc : Cluster.Reachable D c) : ∃ g, Good D.numNodes c.world g :=
  let ⟨g, h⟩ := holds hc
  ⟨g, h.good⟩

/-! ### What a replicated log is for -/

/-- Log matching: two logs with entries of one term in the same place agree up to
there, at every moment of every run. -/
theorem log_matching {c : Cluster} (hc : Cluster.Reachable D c) {i j k : ℕ} {e e' : LogEntry}
    (hi : (c.world.disk i).log[k]? = some e) (hj : (c.world.disk j).log[k]? = some e')
    (ht : e.term = e'.term) :
    ∀ m ≤ k, (c.world.disk i).log[m]? = (c.world.disk j).log[m]? := by
  obtain ⟨g, hg⟩ := good hc
  have htri := hg.inv.log_traced i
  have htrj := hg.inv.log_traced j
  rw [hg.log] at htri htrj
  have htake := htri.matching htrj hi hj ht
  intro m hm
  have := congrArg (·[m]?) htake
  simpa [List.getElem?_take_of_lt (Nat.lt_succ_of_le hm)] using this

/-- Node 0 of three nodes is elected in term 1, accepts a command, has it stored by
node 2, commits it, applies it and replies. -/
def served : List Action :=
  [.timeout 0 ⟨0, 0⟩] ++ Action.execs 0 4 ++ [.deliver 1 ⟨0, 0⟩] ++ Action.execs 2 5 ++
  [.deliver 2 ⟨0, 0⟩] ++ Action.execs 0 3 ++ [.client 0 9 ⟨9, 1, 7⟩] ++ Action.execs 0 3 ++
  [.deliver 6 ⟨0, 0⟩] ++ Action.execs 2 2 ++ [.deliver 7 ⟨0, 0⟩] ++ Action.execs 0 4

theorem log_matching_served : ∃ c, Cluster.Reachable (.plain 3 (by decide)) c ∧
    (c.world.disk 0).log ≠ [] ∧ (c.world.disk 0).log[0]? = (c.world.disk 2).log[0]? := by
  have hrun : ∃ c, Cluster.Reachable (.plain 3 (by decide)) c ∧
      (c.world.disk 0).log = [⟨1, 9, 1, 7⟩] ∧ (c.world.disk 2).log = [⟨1, 9, 1, 7⟩] :=
    Cluster.Run.exists_of_actions (P := fun c => (c.world.disk 0).log = [⟨1, 9, 1, 7⟩] ∧
      (c.world.disk 2).log = [⟨1, 9, 1, 7⟩]) served (by decide +kernel)
  obtain ⟨c, hc, h0, h2⟩ := hrun
  have h0' : (c.world.disk 0).log[0]? = some ⟨1, 9, 1, 7⟩ := by simp [h0]
  have h2' : (c.world.disk 2).log[0]? = some ⟨1, 9, 1, 7⟩ := by simp [h2]
  exact ⟨c, hc, by simp [h0], log_matching hc h0' h2' rfl 0 le_rfl⟩

/-- Leader completeness: a leader of a later term was elected with all that was
committed, as the leader that committed it had it. -/
theorem leader_completeness {c : Cluster} (hc : Cluster.Reachable D c) {r r' : Record} {T t : ℕ}
    {idx : ℤ} (hr : r ∈ c.world.history) (hev : r.event = .commit T idx)
    (hr' : r' ∈ c.world.history) (hev' : r'.event = .becameLeader t) (hT : T < t) :
    ∀ k : ℕ, k ≤ idx → ∃ e, r.disk.log[k]? = some e ∧ r'.disk.log[k]? = some e := by
  obtain ⟨g, hg⟩ := good hc
  have hcommit := hg.records r hr
  have hleader := hg.records r' hr'
  rw [RecordOk, hev] at hcommit
  rw [RecordOk, hev'] at hleader
  obtain ⟨m, hm, hle, hcom⟩ := hcommit
  obtain ⟨ho, helect⟩ := hleader
  have hpre : r.disk.log.take m <+: r'.disk.log := helect ▸ hg.inv.complete hcom hT ho
  intro k hk
  have hkm : k < m := by omega
  have hke : r.disk.log[k]? = some r.disk.log[k] := List.getElem?_eq_getElem (by omega)
  refine ⟨_, hke, getElem?_of_isPrefix hpre ?_⟩
  rw [List.getElem?_take_of_lt hkm, hke]

/-- Node 2 takes over in term 2 with the command that node 0 committed in term 1. -/
theorem leader_completeness_served : ∃ c, Cluster.Reachable (.plain 3 (by decide)) c ∧
    ∃ r ∈ c.world.history, r.event = .commit 1 0 ∧ ∃ r' ∈ c.world.history,
      r'.event = .becameLeader 2 ∧ ∃ e, r.disk.log[0]? = some e ∧ r'.disk.log[0]? = some e := by
  have hrun : ∃ c, Cluster.Reachable (.plain 3 (by decide)) c ∧
      (∃ r ∈ c.world.history, r.event = .commit 1 0) ∧
      ∃ r ∈ c.world.history, r.event = .becameLeader 2 :=
    Cluster.Run.exists_of_actions (P := fun c => (∃ r ∈ c.world.history, r.event = .commit 1 0) ∧
      ∃ r ∈ c.world.history, r.event = .becameLeader 2)
      (served ++ [.timeout 2 ⟨0, 0⟩] ++ Action.execs 2 4 ++ [.deliver 10 ⟨0, 0⟩] ++
        Action.execs 1 5 ++ [.deliver 11 ⟨0, 0⟩] ++ Action.execs 2 3) (by decide +kernel)
  obtain ⟨c, hc, ⟨r, hr, hev⟩, r', hr', hev'⟩ := hrun
  exact ⟨c, hc, r, hr, hev, r', hr', hev',
    leader_completeness hc hr hev hr' hev' (by decide) 0 le_rfl⟩

/-- State machine safety: what is applied at one index is one entry, and every
process applies the indexes in order. -/
theorem state_machine_safety {c : Cluster} (hc : Cluster.Reachable D c) :
    (∀ r ∈ c.world.history, ∀ r' ∈ c.world.history, ∀ idx e e',
      r.event = .apply idx e → r'.event = .apply idx e' → e = e') ∧
    ∀ i inc, ∃ m, applyOrder c.world i inc = upTo m := by
  obtain ⟨g, hg⟩ := good hc
  refine ⟨fun r hr r' hr' idx e e' hev hev' => ?_, hg.chronicle.applied⟩
  have hr := hg.records r hr
  have hr' := hg.records r' hr'
  rw [RecordOk, hev] at hr
  rw [RecordOk, hev'] at hr'
  obtain ⟨k, hk, T, q, hq, hqk⟩ := hr
  obtain ⟨k', hk', T', q', hq', hqk'⟩ := hr'
  obtain rfl : k = k' := by omega
  exact hg.inv.committed_agree hq hq' hqk hqk'

theorem state_machine_safety_served : ∃ c, Cluster.Reachable (.plain 3 (by decide)) c ∧
    applyOrder c.world 0 0 = [0] ∧
    ∀ r ∈ c.world.history, ∀ e, r.event = .apply 0 e → e = ⟨1, 9, 1, 7⟩ := by
  have hrun : ∃ c, Cluster.Reachable (.plain 3 (by decide)) c ∧ applyOrder c.world 0 0 = [0] ∧
      ∃ r ∈ c.world.history, r.event = .apply 0 ⟨1, 9, 1, 7⟩ :=
    Cluster.Run.exists_of_actions (P := fun c => applyOrder c.world 0 0 = [0] ∧
      ∃ r ∈ c.world.history, r.event = .apply 0 ⟨1, 9, 1, 7⟩) served (by decide +kernel)
  obtain ⟨c, hc, horder, r, hr, hev⟩ := hrun
  exact ⟨c, hc, horder, fun r' hr' e hev' =>
    (state_machine_safety hc).1 r' hr' r hr 0 e ⟨1, 9, 1, 7⟩ hev' hev⟩

/-! ### Acknowledged commands -/

/-- What was replied to is in the log of every leader of a later term, and what is
accepted after the reply is applied behind it. -/
theorem replied_durable {c : Cluster} (hc : Cluster.Reachable D c) {a : ℕ} {r : Record} {idx : ℤ}
    {e : LogEntry} (ha : c.world.history[a]? = some r) (hev : r.event = .reply idx e) :
    (∀ (b : ℕ) r' t, a < b → c.world.history[b]? = some r' → r'.event = .becameLeader t →
      r.disk.currentTerm < t → ∃ k : ℕ, idx = k ∧ r'.disk.log[k]? = some e) ∧
    ∀ (b : ℕ) r' k x, a < b → c.world.history[b]? = some r' → r'.event = .accept k x →
      ∀ r'' ∈ c.world.history, r''.event = .apply k x → idx < k := by
  obtain ⟨g, hg⟩ := good hc
  obtain ⟨k, T, q, rfl, hq, hT, hqk, hacc⟩ := hg.chronicle.replied ha hev
  refine ⟨fun b r' t _ hb hev' ht => ⟨k, rfl, ?_⟩, fun b r' m x hab hb hev' r'' hr'' hev'' => ?_⟩
  · have hleader := hg.records r' (List.mem_of_getElem? hb)
    rw [RecordOk, hev'] at hleader
    obtain ⟨ho, helect⟩ := hleader
    have hpre : q <+: r'.disk.log := helect ▸ hg.inv.complete hq (by omega) ho
    exact getElem?_of_isPrefix hpre hqk
  · -- an entry at or before the one replied to was accepted before the reply, and only once
    by_contra hle
    have happlied := hg.records r'' hr''
    rw [RecordOk, hev''] at happlied
    obtain ⟨m', hm', T', q', hq', hqm'⟩ := happlied
    obtain rfl : m = m' := by omega
    have hlt : m < q.length := by
      have := (List.getElem?_eq_some_iff.mp hqk).1
      omega
    have hqm : q[m]? = some q[m] := List.getElem?_eq_getElem hlt
    have hsame := hg.inv.committed_agree hq hq' hqm hqm'
    obtain ⟨b', s, hb', hs, hevs⟩ := hacc m x (by rw [hqm, hsame])
    obtain rfl := hg.chronicle.accept_one hb hs hev' hevs rfl
    omega

/-- Node 2 takes over with the command that node 0 replied to. -/
theorem replied_durable_served : ∃ c, Cluster.Reachable (.plain 3 (by decide)) c ∧
    ∃ r' ∈ c.world.history, r'.event = .becameLeader 2 ∧
      r'.disk.log[0]? = some ⟨1, 9, 1, 7⟩ := by
  have hrun : ∃ c, Cluster.Reachable (.plain 3 (by decide)) c ∧
      (c.world.history[7]?.any fun r =>
        decide (r.event = .reply 0 ⟨1, 9, 1, 7⟩ ∧ r.disk.currentTerm = 1)) ∧
      (c.world.history[11]?.any fun r => decide (r.event = .becameLeader 2)) :=
    Cluster.Run.exists_of_actions (P := fun c => (c.world.history[7]?.any fun r =>
        decide (r.event = .reply 0 ⟨1, 9, 1, 7⟩ ∧ r.disk.currentTerm = 1)) ∧
      (c.world.history[11]?.any fun r => decide (r.event = .becameLeader 2)))
      (served ++ [.timeout 2 ⟨0, 0⟩] ++ Action.execs 2 4 ++ [.deliver 10 ⟨0, 0⟩] ++
        Action.execs 1 5 ++ [.deliver 11 ⟨0, 0⟩] ++ Action.execs 2 3) (by decide +kernel)
  obtain ⟨c, hc, hreply, hlead⟩ := hrun
  obtain ⟨r, hr, hrp⟩ := (Option.any_eq_true _ _).mp hreply
  obtain ⟨r', hr', hrp'⟩ := (Option.any_eq_true _ _).mp hlead
  obtain ⟨hev, hterm⟩ := of_decide_eq_true hrp
  obtain ⟨k, hk, hlog⟩ := (replied_durable hc hr hev).1 11 r' 2 (by decide) hr'
    (of_decide_eq_true hrp') (by omega)
  obtain rfl : k = 0 := by omega
  exact ⟨c, hc, r', List.mem_of_getElem? hr', of_decide_eq_true hrp', hlog⟩

/-- Node 1 replies in term 2; then node 0 gets the vote of term 1 it was waiting for
and becomes a leader with an empty log. -/
theorem late_leader : ∃ c, Cluster.Reachable (.plain 3 (by decide)) c ∧
    (c.world.history[11]?.any fun r => decide (r.event = .reply 0 ⟨2, 9, 1, 7⟩)) ∧
    (c.world.history[12]?.any fun r => decide (r.event = .becameLeader 1 ∧ r.disk.log = [])) :=
  Cluster.Run.exists_of_actions (D := .plain 3 (by decide))
    (P := fun c => (c.world.history[11]?.any fun r => decide (r.event = .reply 0 ⟨2, 9, 1, 7⟩)) ∧
      (c.world.history[12]?.any fun r => decide (r.event = .becameLeader 1 ∧ r.disk.log = [])))
    ([.timeout 0 ⟨0, 0⟩] ++ Action.execs 0 4 ++ [.deliver 1 ⟨0, 0⟩] ++ Action.execs 2 5 ++
      -- node 1 stands twice and is elected by node 2 in term 2
      [.timeout 1 ⟨0, 0⟩] ++ Action.execs 1 4 ++ [.timeout 1 ⟨0, 0⟩] ++ Action.execs 1 4 ++
      [.deliver 6 ⟨0, 0⟩] ++ Action.execs 2 5 ++ [.deliver 7 ⟨0, 0⟩] ++ Action.execs 1 3 ++
      [.client 1 9 ⟨9, 1, 7⟩] ++ Action.execs 1 3 ++ [.deliver 11 ⟨0, 0⟩] ++ Action.execs 2 2 ++
      [.deliver 12 ⟨0, 0⟩] ++ Action.execs 1 4 ++
      -- node 2's vote of term 1 reaches node 0
      [.deliver 2 ⟨0, 0⟩] ++ Action.execs 0 3)
    (by decide +kernel)

end GeoRaft.Replication
