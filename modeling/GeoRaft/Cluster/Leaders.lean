import GeoRaft.Cluster.Safety

/-!
What the memory of a node says, at any moment of a run.

The memory of a node is the one it has when its handler is over, so what is
known of it is known in the world that the rest of its script leads to. That
world differs from the present one in nothing that belongs to another node,
and what a memory says about others can be brought back from there.
-/

namespace GeoRaft.Replication

open ReplicatedLog Quorum Election Word Script

variable {D : Deployment} {i : ℕ}

/-- The world at the end of the script of a node. -/
theorem Run.finish {ok : Cluster → Action → Cluster → Prop}
    (hok : ∀ {c a c'}, ok c a c' → Cluster.StorageOk D c') {c : Cluster}
    (hc : Cluster.Run D ok c) : ∃ g, Good D.numNodes c.world g ∧
      ∀ i < D.numNodes, ∃ w' g', Good D.numNodes w' g' ∧ Memory D i (c.node i) w' g' ∧
        Moves (scheme D.numNodes) i g g' := by
  obtain ⟨u, hu⟩ := Logic.run (Election.obligations (B := fun _ => True) hok (fun _ => .inl trivial))
    (fun _ => trivial) hc
  obtain ⟨g, hg⟩ := Logic.run (obligations hok) (fun hc => tally hok (fun _ => .inl trivial) hc) hc
  refine ⟨g, hg.good, fun i hi => ?_⟩
  obtain ⟨w', g', hat, hmoves⟩ := Logic.Ok.finish (fun _ => trivial) (fun h => h) (hu.ok i hi)
    (hg.ok i hi) hu.good hg.good
  refine ⟨w', g', hat.2.1, hat.2.2, ?_⟩
  clear hat
  induction hmoves with
  | refl => exact .refl
  | tail _ hs ih => exact Relation.ReflTransGen.trans ih hs

/-! ### Acknowledged indexes -/

/-- The moves of a process are not the acknowledgements of another. -/
theorem Moves.acks_of_ne {N j : ℕ} {g g' : Ghost} (hm : Moves (scheme N) i g g') (hj : j ≠ i)
    {T : ℕ} {q : List LogEntry} (h : (T, j, q) ∈ g'.acks) : (T, j, q) ∈ g.acks := by
  induction hm with
  | refl => exact h
  | tail _ hs ih =>
      refine ih ?_
      cases hs with
      | ack =>
          refine (Set.mem_insert_iff.mp h).resolve_left fun heq => hj ?_
          exact congrArg (fun x => x.2.1) heq
      | _ => exact h

/-- What a leader takes for acknowledged is there: the log on the disk of the other
node begins as the leader's own, on its disk and in its memory. -/
theorem match_index_sound {c : Cluster} (hc : Cluster.Reachable D c) {l i : ℕ} {m : ℤ}
    (hl : l < D.numNodes) (hr : (c.node l).role = .leader)
    (ht : (c.world.disk i).currentTerm = (c.node l).store.currentTerm)
    (hm : (c.node l).matchIndex[i]? = some m) (hpos : 0 ≤ m) :
    m < (c.world.disk i).log.length ∧ ∀ k : ℕ, k ≤ m →
      (c.world.disk i).log[k]? = (c.node l).store.log[k]? ∧
      (c.world.disk i).log[k]? = (c.world.disk l).log[k]? := by
  obtain ⟨g, hg, hfinish⟩ := Run.finish (fun h => h) hc
  obtain ⟨w', g', hg', hmem, hmoves⟩ := hfinish l hl
  obtain ⟨hown, -, hacked⟩ := hmem.leader hr
  obtain ⟨hne, q, hq, hlen⟩ := hacked hm hpos
  have hgrows := hmoves.grows hg.inv
  have hlog' := leader_log hg' hmem hr
  have hqmem : q <+: (c.node l).store.log := hlog' ▸ (hg'.inv.acked hq).2.2.1
  -- the acknowledgement was there before the leader's script
  have hack := Moves.acks_of_ne hmoves hne hq
  obtain ⟨ho, -, hlead, hkeep⟩ := hg.inv.acked hack
  have hqi : q <+: (c.world.disk i).log := by
    rw [← hg.log]
    refine (hkeep q List.prefix_rfl).resolve_right ?_
    rintro ⟨s, hs, hs', -⟩
    rw [hg.term, ht] at hs'
    omega
  have hql : q <+: (c.world.disk l).log := by
    obtain ⟨j, hj⟩ := Option.ne_none_iff_exists'.mp ho
    obtain rfl : j = l := Option.some.inj ((hgrows.owner hj).symm.trans hown)
    obtain ⟨hle, hlog⟩ := hg.inv.owner_log hj
    have hge := hgrows.term j
    rw [hmem.term_eq hg'] at hge
    rw [← hg.log, hlog (le_antisymm hge hle)]
    exact hlead
  have hqlen := hqi.length_le
  refine ⟨by omega, fun k hk => ?_⟩
  have hqk : q[k]? = some q[k] := List.getElem?_eq_getElem (by omega)
  rw [getElem?_of_isPrefix hqi hqk, getElem?_of_isPrefix hqmem hqk, getElem?_of_isPrefix hql hqk]
  exact ⟨rfl, rfl⟩

/-- Node 0 has heard of node 2 that it holds the entry at index 0. -/
theorem match_index_sound_served : ∃ c, Cluster.Reachable (.plain 3 (by decide)) c ∧
    (c.node 0).matchIndex[2]? = some 0 ∧ 0 < (c.world.disk 2).log.length := by
  have hrun : ∃ c, Cluster.Reachable (.plain 3 (by decide)) c ∧ (c.node 0).role = .leader ∧
      (c.world.disk 2).currentTerm = (c.node 0).store.currentTerm ∧
      (c.node 0).matchIndex[2]? = some 0 :=
    Cluster.Run.exists_of_actions (P := fun c => (c.node 0).role = .leader ∧
      (c.world.disk 2).currentTerm = (c.node 0).store.currentTerm ∧
      (c.node 0).matchIndex[2]? = some 0) served (by decide +kernel)
  obtain ⟨c, hc, hr, ht, hm⟩ := hrun
  have hlen := (match_index_sound hc (l := 0) (i := 2) (by decide) hr ht hm le_rfl).1
  exact ⟨c, hc, hm, by omega⟩

/-! ### The commit index -/

/-- The step delivers a request that makes its receiver take back a commit. -/
def lowersCommit (c : Cluster) : Action → Bool
  | .deliver k _ => (c.world.sent[k]?).any fun pkt =>
    match pkt.rpc with
    | .appendEntriesReq req => decide ((c.node pkt.dst).LowersCommit req)
    | _ => false
  | _ => false

/-- A step leaves the two indexes of a node alone or raises them, or the node is
restarted, in every run in which no commit is taken back. -/
theorem step_advances {c c' : Cluster} {a : Action} (hT : Tally D.numNodes (fun _ => True) c.world)
    (hterm : ∀ i < D.numNodes, (c.node i).store.currentTerm < 2 ^ 31)
    (hs : c.step D a = some c') (hno : lowersCommit c a = false) (i : ℕ) :
    Node.Advances (c.node i) (c'.node i) ∨ c'.world.inc i ≠ c.world.inc i ∧
      ∃ d, c'.node i = raftCreate (D.config i) d := by
  cases Cluster.step_node hs i with
  | still s hn =>
      rw [hn]
      exact .inl ⟨le_rfl, id⟩
  | restart d hn hinc => exact .inr ⟨hinc, d, hn⟩
  | deliver env hpkt hdst hi hidle hn =>
      subst hdst
      rw [hn]
      refine .inl (Node.raftHandleRpc_advances env (hterm _ hi)
        (hT.packet_lt _ (List.mem_of_getElem? hpkt)).2 fun req hreq hlow => ?_)
      simp [lowersCommit, hpkt, hreq, hlow] at hno
  | timeout env hi hidle hn =>
      rw [hn]
      exact .inl (Node.raftHandleTimeout_still env _).advances
  | client src req hi hidle hn =>
      rw [hn]
      exact .inl (Node.handleProcRequest_still _ req src).advances

/-- The runs in which storage is reliable and no commit is taken back. -/
abbrev Committing (D : Deployment) : Cluster → Prop :=
  Cluster.Run D fun c a c' => Cluster.StorageOk D c' ∧ lowersCommit c a = false

theorem Committing.applied_le {c : Cluster} (hc : Committing D c) :
    ∀ i, (c.node i).lastApplied ≤ (c.node i).commitIndex := by
  refine Cluster.Run.invariant (P := fun c => ∀ i, (c.node i).lastApplied ≤ (c.node i).commitIndex)
    (fun i => le_rfl) (fun {c c' a} hc ih hs hok i => ?_) hc
  have hT := tally (B := fun _ => True) (fun h => h.1) (fun _ => .inl trivial) hc
  have hterm := Cluster.Run.storageOk (fun h => h.1) hc
  rcases step_advances hT (fun j hj => (hterm j hj).1) hs hok.2 i with hadv | ⟨-, d, hd⟩
  · exact hadv.applied (ih i)
  · rw [hd]
    exact le_rfl

/-- The commit index of a node stays between what it has applied and the end of its
log, and no further step of the process lowers it, in every run in which no
request makes a node take a commit back. -/
theorem commit_index_discipline {c : Cluster} (hc : Committing D c) {i : ℕ} (hi : i < D.numNodes) :
    (c.node i).lastApplied ≤ (c.node i).commitIndex ∧
    (c.node i).commitIndex < (c.node i).store.log.length ∧
    ∀ a c', c.step D a = some c' → lowersCommit c a = false →
      c'.world.inc i = c.world.inc i → (c.node i).commitIndex ≤ (c'.node i).commitIndex := by
  have hT := tally (B := fun _ => True) (fun h => h.1) (fun _ => .inl trivial) hc
  refine ⟨hc.applied_le i, ?_, fun a c' hs hno hinc => ?_⟩
  · obtain ⟨g, -, hfinish⟩ := Run.finish (fun h => h.1) hc
    obtain ⟨w', g', -, hmem, -⟩ := hfinish i hi
    obtain ⟨m, hm, hheld⟩ := hmem.commit
    have := hheld.le_length
    omega
  · have hterm := Cluster.Run.storageOk (fun h => h.1) hc
    rcases step_advances hT (fun j hj => (hterm j hj).1) hs hno i with hadv | ⟨hne, -⟩
    · exact hadv.commit
    · exact absurd hinc hne

/-- Node 0 has committed what it applied, which is in its log. -/
theorem commit_index_discipline_served : ∃ c, Cluster.Reachable (.plain 3 (by decide)) c ∧
    (c.node 0).commitIndex = 0 ∧ (c.node 0).commitIndex < (c.node 0).store.log.length := by
  have hrun : ∃ c, Committing (.plain 3 (by decide)) c ∧ (c.node 0).commitIndex = 0 :=
    Cluster.Run.exists_of_actions (P := fun c => (c.node 0).commitIndex = 0) served
      (by decide +kernel)
  obtain ⟨c, hc, h0⟩ := hrun
  exact ⟨c, hc.mono fun _ _ _ h => h.1, h0, (commit_index_discipline hc (i := 0) (by decide)).2.1⟩

/-- Node 1 holds the entry, committed and applied, when it gets a heartbeat that was
sent before it acknowledged it, by a leader that has committed one entry more. -/
theorem commit_index_lowered : ∃ c, Cluster.Reachable (.plain 3 (by decide)) c ∧
    (c.step (.plain 3 (by decide)) (.deliver 13 ⟨0, 0⟩)).any fun c' =>
      decide (Cluster.StorageOk (.plain 3 (by decide)) c' ∧ c'.world.inc 1 = c.world.inc 1 ∧
        (c.node 1).lastApplied = 0 ∧ (c.node 1).commitIndex = 0 ∧ (c'.node 1).commitIndex = -1) :=
  Cluster.Run.exists_of_actions (D := .plain 3 (by decide))
    (P := fun c => (c.step (.plain 3 (by decide)) (.deliver 13 ⟨0, 0⟩)).any fun c' =>
      decide (Cluster.StorageOk (.plain 3 (by decide)) c' ∧ c'.world.inc 1 = c.world.inc 1 ∧
        (c.node 1).lastApplied = 0 ∧ (c.node 1).commitIndex = 0 ∧ (c'.node 1).commitIndex = -1))
    (served ++
      -- a second command is stored by node 2 and committed
      [.client 0 9 ⟨9, 2, 7⟩] ++ Action.execs 0 3 ++ [.deliver 10 ⟨0, 0⟩] ++ Action.execs 2 3 ++
      [.deliver 11 ⟨0, 0⟩] ++ Action.execs 0 4 ++
      -- a heartbeat leaves for node 1, which then gets what was sent to it before
      [.timeout 0 ⟨0, 0⟩] ++ Action.execs 0 2 ++ [.deliver 3 ⟨0, 0⟩] ++ Action.execs 1 4 ++
      [.deliver 5 ⟨0, 0⟩] ++ Action.execs 1 2 ++ [.deliver 9 ⟨0, 0⟩] ++ Action.execs 1 3)
    (by decide +kernel)

end GeoRaft.Replication
