import GeoRaft.Cluster.Replication

/-!
Entries on their way: what a leader sends and accepts, how a follower brings its
log in line, what is committed and applied. Every function of the node that
touches the log is matched, effect by effect, with moves of the replicated log.
-/

namespace GeoRaft.Replication

open ReplicatedLog Quorum Election Word Script

variable {D : Deployment} {i : ℕ} {p : World × Ghost} {n n' : Node Disk}

theorem Memory.id_eq {w : World} {g : Ghost} (h : Memory D i n w g) : n.config.id = i := by
  rw [h.config, D.id_eq]

theorem Memory.numNodes_eq {w : World} {g : Ghost} (h : Memory D i n w g) :
    n.config.numNodes = D.numNodes := by
  rw [h.config, D.numNodes_eq]

theorem Memory.term_eq {w : World} {g : Ghost} (h : Memory D i n w g) (hg : Good D.numNodes w g) :
    g.term i = n.store.currentTerm := by
  rw [hg.term, h.disk]

theorem Memory.log_eq {w : World} {g : Ghost} (h : Memory D i n w g) (hg : Good D.numNodes w g) :
    g.log i = n.store.log := by
  rw [hg.log, h.disk]

theorem Memory.log_lt {w : World} {g : Ghost} (h : Memory D i n w g) (hg : Good D.numNodes w g) :
    n.store.log.length < 2 ^ 31 :=
  h.disk ▸ hg.log_lt i

/-- A memory that differs in nothing the replicated log is concerned with. -/
theorem Memory.congr {w w' : World} {g : Ghost} (h : Memory D i n w g)
    (hd : w'.disk i = n'.store) (hinc : w'.inc i = w.inc i)
    (happ : applyOrder w' i (w.inc i) = applyOrder w i (w.inc i))
    (ht : n'.store.currentTerm = n.store.currentTerm) (hl : n'.store.log = n.store.log)
    (hc : n'.config = n.config) (hci : n'.commitIndex = n.commitIndex)
    (hla : n'.lastApplied = n.lastApplied) (hr : n'.role = n.role)
    (hni : n'.nextIndex = n.nextIndex) (hmi : n'.matchIndex = n.matchIndex) :
    Memory D i n' w' g where
  lt := h.lt
  disk := hd
  config := hc.trans h.config
  commit := by
    rw [hci, ht, hl]
    exact h.commit
  applied := by
    rw [hla, hinc, happ]
    exact h.applied
  candidate hcand := by
    rw [ht, hl]
    exact h.candidate (hr ▸ hcand)
  leader hlead := by
    obtain ⟨hown, hnext, hack⟩ := h.leader (hr ▸ hlead)
    exact ⟨by rw [ht]; exact hown, by rw [hni, hl]; exact hnext, by rw [hmi, ht]; exact hack⟩

/-- Moves of the node itself that neither stand nor win. -/
theorem Memory.grow {w : World} {g g' : Ghost} (h : Memory D i n w g) (hg : Grows g g')
    (hc : g'.claim = g.claim) (ho : g'.owner = g.owner) : Memory D i n w g' where
  lt := h.lt
  disk := h.disk
  config := h.config
  commit :=
    let ⟨m, hm, hheld⟩ := h.commit
    ⟨m, hm, hheld.mono hg le_rfl List.prefix_rfl⟩
  applied := h.applied
  candidate hr := by
    rw [hc, ho]
    exact h.candidate hr
  leader hr :=
    ⟨hg.owner (h.leader hr).owner, (h.leader hr).next, fun hj hm =>
      let ⟨hne, q, hq, hlen⟩ := (h.leader hr).acked hj hm
      ⟨hne, q, hg.acks hq, hlen⟩⟩

/-- A condition that neither the other processes nor the packets and notes of `i` destroy. -/
structure Steady (D : Deployment) (i : ℕ) (P : World × Ghost → Prop) : Prop where
  stable : Stable ((logic D).setting i) P
  send : ∀ {w g x}, P (w, g) → P ({ w with sent := w.sent ++ [x] }, g)
  record : ∀ {w g e}, P (w, g) → P (w.record i e, g)

theorem Steady.true : Steady D i fun _ => True :=
  ⟨fun _ _ _ => id, fun _ => trivial, fun _ => trivial⟩

theorem Steady.and {P P' : World × Ghost → Prop} (h : Steady D i P) (h' : Steady D i P') :
    Steady D i fun q => P q ∧ P' q :=
  ⟨h.stable.and h'.stable, fun hq => ⟨h.send hq.1, h'.send hq.2⟩,
    fun hq => ⟨h.record hq.1, h'.record hq.2⟩⟩

/-- A change of memory that the replicated log is not concerned with. -/
theorem ok_mem {P : World × Ghost → Prop} (h : (logic D).OkWith P i p n)
    (hsc : n'.script = n.script) (hs : n'.store = n.store)
    (hc : n'.config = n.config) (hci : n'.commitIndex = n.commitIndex)
    (hla : n'.lastApplied = n.lastApplied) (hr : n'.role = n.role)
    (hni : n'.nextIndex = n.nextIndex) (hmi : n'.matchIndex = n.matchIndex) :
    (logic D).OkWith P i p n' :=
  h.mem hsc fun _ _ _ _ hm _ =>
    Memory.congr hm (hs ▸ hm.disk) rfl rfl (by rw [hs]) (by rw [hs]) hc hci hla hr hni hmi

/-- A packet that says something true goes out. -/
theorem ok_send {P : World × Ghost → Prop} (h : (logic D).OkWith P i p n) (hP : Steady D i P)
    {dst : ℕ} {rpc : Rpc}
    (hp : ∀ w g, Good D.numNodes w g → Memory D i n w g → P (w, g) →
      PacketOk D.numNodes g ⟨dst, i, rpc⟩) :
    (logic D).OkWith P i p (n.send dst rpc) := by
  refine h.effect hP.stable rfl (fun _ _ hm => hm.id_eq) fun w g _ hgood hm hPw _ => ?_
  have hid : n.config.id = i := hm.id_eq
  refine ⟨g, .refl, Good.send (i := i) hgood .refl rfl rfl rfl rfl ?_,
    Memory.congr hm hm.disk rfl rfl rfl rfl rfl rfl rfl rfl rfl rfl, hP.send hPw⟩
  rw [hid]
  exact hp w g hgood hm hPw

/-! ### Requests of a leader -/

theorem nextIndex_le {w : World} {g : Ghost} (hm : Memory D i n w g) (hr : n.role = .leader)
    (j : ℕ) : n.nextIndex.getD j 0 ≤ n.store.log.length := by
  rw [List.getD_eq_getElem?_getD]
  cases hj : n.nextIndex[j]? with
  | none => exact Nat.zero_le _
  | some x => exact (hm.leader hr).next x (List.mem_of_getElem? hj)

theorem leader_log {w : World} {g : Ghost} (hg : Good D.numNodes w g) (hm : Memory D i n w g)
    (hr : n.role = .leader) : g.lead n.store.currentTerm = n.store.log := by
  have hown := (hg.inv.owner_log (hm.leader hr).owner).2 (hm.term_eq hg)
  rw [← hown, hm.log_eq hg]

/-- The request that a leader makes for `j` when it carries a part of its log. -/
theorem appendOk {w : World} {g : Ghost} (hg : Good D.numNodes w g) (hm : Memory D i n w g)
    (hr : n.role = .leader) {j : ℕ} (hj : j ≠ i) {entries : List LogEntry}
    (he : entries <+: n.store.log.drop (n.nextIndex.getD j 0)) :
    AppendOk D.numNodes g i j (n.appendEntriesReqTo n.store.currentTerm j entries) := by
  have hx := nextIndex_le hm hr j
  have hlt := hm.log_lt hg
  have hlen := he.length_le
  rw [List.length_drop] at hlen
  have hlead := leader_log hg hm hr
  obtain ⟨m, hcm, hheld⟩ := hm.commit
  refine ⟨(hm.leader hr).owner, hm.id_eq, hj, ⟨n.nextIndex.getD j 0, rfl, ?_, ?_, ?_, ?_⟩,
    m, hcm, ?_⟩
  · show n.nextIndex.getD j 0 + entries.length < 2 ^ 31
    omega
  · show n.nextIndex.getD j 0 ≤ (g.lead n.store.currentTerm).length
    rw [hlead]
    exact hx
  · show entries <+: (g.lead n.store.currentTerm).drop _
    rw [hlead]
    exact he
  · rw [Node.appendEntriesReqTo_prevLogTerm hlt hx]
    show _ = termBefore (g.lead n.store.currentTerm) _
    rw [hlead]
  · show Held D.numNodes g n.store.currentTerm m (g.lead n.store.currentTerm)
    rw [hlead]
    exact hheld

theorem get_currentTerm_eq (h : n.store.currentTerm < 2 ^ 31) :
    u32 (n.get .currentTerm) = n.store.currentTerm := by
  rw [Node.get_currentTerm, u32_i32, u32_of_nat (by omega)]

/-- A loop that sends each other node a request with a part of the leader's log. -/
theorem forOthers_ok (h : (logic D).Ok i p n) (hid : n.config.id = i) {term : ℕ}
    (ht : term = n.store.currentTerm) (hr : n.role = .leader) {entries : Node Disk → ℕ → List LogEntry}
    (he : ∀ (m : Node Disk) j w g, Good D.numNodes w g → Memory D i m w g → m.role = .leader →
      m.store = n.store → entries m j <+: m.store.log.drop (m.nextIndex.getD j 0)) :
    (logic D).Ok i p (n.forOthers fun m j =>
      m.send j (.appendEntriesReq (m.appendEntriesReqTo term j (entries m j)))) := by
  refine (Node.forOthers_induct (motive := fun _ m => (logic D).Ok i p m ∧
    m = { n with script := m.script }) n ⟨h, rfl⟩ fun k m _ hm => ?_).1
  obtain ⟨hm, heq⟩ := hm
  split
  · exact ⟨hm, heq⟩
  · rename_i hki
    have hmr : m.role = .leader := by
      rw [heq]
      exact hr
    have hmt : term = m.store.currentTerm := by
      rw [heq]
      exact ht
    refine ⟨ok_send hm Steady.true fun w g hg hmem _ => ?_, by rw [heq]; rfl⟩
    rw [hmt]
    exact appendOk hg hmem hmr (fun h => hki (h.trans hid.symm)) (he m k w g hg hmem hmr (by rw [heq]))

theorem sendHeartbeats_ok (h : (logic D).Ok i p n) (hid : n.config.id = i)
    (hlt : n.store.currentTerm < 2 ^ 31) : (logic D).Ok i p n.sendHeartbeats := by
  unfold Node.sendHeartbeats
  split
  · exact h
  · rename_i hr
    push Not at hr
    exact forOthers_ok h hid (get_currentTerm_eq hlt) hr fun _ _ _ _ _ _ _ _ => List.nil_prefix

theorem broadcastAppendEntries_ok (h : (logic D).Ok i p n) (hid : n.config.id = i)
    (hlt : n.store.currentTerm < 2 ^ 31) : (logic D).Ok i p n.broadcastAppendEntries := by
  unfold Node.broadcastAppendEntries
  split
  · exact h
  · rename_i hr
    push Not at hr
    refine forOthers_ok h hid (get_currentTerm_eq hlt) hr fun m j w g hg hm hmr hs => ?_
    have hlen : n.logLength = m.logLength := by rw [Node.logLength, Node.logLength, hs]
    rw [hlen, Node.entriesFor_eq (hm.log_lt hg) (nextIndex_le hm hmr j)]
    exact List.take_prefix _ _

/-! ### Applying -/

/-- Entry `k` of a log is committed if enough of the log is. -/
theorem Held.entry {N : ℕ} {g : Ghost} {t m k : ℕ} {l : List LogEntry} (h : Held N g t m l)
    (hk : k < m) {e : LogEntry} (he : l[k]? = some e) :
    ∃ T p, Committed (scheme N) g T p ∧ T ≤ t ∧ p[k]? = some e := by
  rcases h with rfl | ⟨T, p, hc, hT, hm, s, hs⟩
  · omega
  · refine ⟨T, p, hc, hT, ?_⟩
    have hlt : k < (p.take m).length := by
      rw [List.length_take]
      omega
    rw [← hs, List.getElem?_append_left hlt, List.getElem?_take_of_lt hk] at he
    exact he

theorem applyOrder_record {w : World} {e : Event} (he : ∀ k x, e ≠ .apply k x) (j inc : ℕ) :
    applyOrder (w.record i e) j inc = applyOrder w j inc := by
  have hno : appliedBy j inc ⟨i, w.inc i, e, w.disk i⟩ = none := by
    cases e with
    | apply k x => exact absurd rfl (he k x)
    | _ => rfl
  simp [applyOrder, World.record, hno]

theorem applyOrder_record_apply {w : World} {idx : ℤ} {e : LogEntry} :
    applyOrder (w.record i (.apply idx e)) i (w.inc i) = applyOrder w i (w.inc i) ++ [idx] := by
  simp [applyOrder, World.record, appliedBy]

theorem upTo_succ (m : ℕ) : upTo (m + 1) = upTo m ++ [(m : ℤ)] := by
  simp [upTo, List.range_succ]

/-- Nothing that the replicated log is concerned with changes in memory. -/
theorem ok_note {P : World × Ghost → Prop} (h : (logic D).OkWith P i p n) (hP : Steady D i P)
    {e : Event} (he : ∀ t, e ≠ .becameLeader t) (he' : ∀ k x, e ≠ .apply k x)
    (hg : ∀ {w g}, Good D.numNodes w g → Memory D i n w g → P (w, g) →
      RecordOk D.numNodes g ⟨i, w.inc i, e, w.disk i⟩ ∧ Chronicle D.numNodes (w.record i e) g) :
    (logic D).OkWith P i p (n.note e) := by
  refine h.effect hP.stable rfl (fun _ _ _ => trivial) fun w g _ hgood hm hPw _ => ?_
  obtain ⟨hrec, hch⟩ := hg hgood hm hPw
  exact ⟨g, .refl, Good.record hgood .refl rfl rfl rfl he hrec hch,
    Memory.congr hm hm.disk rfl (applyOrder_record he' i _) rfl rfl rfl rfl rfl rfl rfl rfl,
    hP.record hPw⟩

/-- The note that a reply goes out, for an entry that is committed. -/
theorem replyOutstanding_ok {P : World × Ghost → Prop} (h : (logic D).OkWith P i p n)
    (hP : Steady D i P) {idx : ℤ} {entry : LogEntry} (hread : n.logRead idx = some entry)
    (hidx : idx ≤ n.commitIndex) : (logic D).OkWith P i p (n.replyOutstanding idx entry) := by
  unfold Node.replyOutstanding
  split
  · exact h
  · have h₁ : (logic D).OkWith P i p (n.note (.reply idx entry)) := by
      refine ok_note h hP nofun nofun fun {w g} hg hm _ => ⟨trivial, ?_⟩
      obtain ⟨m, hcm, hheld⟩ := hm.commit
      have hlt := hm.log_lt hg
      have hmlen := hheld.le_length
      obtain ⟨k, rfl, hk⟩ := Node.logRead_some (by omega) hread
      obtain ⟨T, q, hc, hT, hq⟩ := hheld.entry (by omega) hk
      refine hg.chronicle.record (Grows.refl g) (fun ho hx _ => .inl ⟨ho, hx⟩) nofun nofun
        fun he => ?_
      obtain ⟨rfl, rfl⟩ := Event.reply.inj he
      refine ⟨k, T, q, rfl, hc, by rw [hm.disk]; exact hT, hq, fun j y hy => ?_⟩
      exact hg.accepted ((hg.inv.lead_traced hc.1).isPrefix hc.2.1) hy
    have h₂ : (logic D).OkWith P i p ((n.note (.reply idx entry)).send entry.clientId
        (.procRes ⟨entry.clientId, entry.cmdSeqno, 1, n.config.id, u32 (n.get .currentTerm)⟩)) :=
      ok_send h₁ hP fun _ _ _ _ _ => trivial
    exact ok_mem h₂ rfl rfl rfl rfl rfl rfl rfl rfl

theorem applyNext_ok {P : World × Ghost → Prop} (h : (logic D).OkWith P i p n)
    (hP : Steady D i P) (hlt : n.lastApplied < n.commitIndex) :
    (logic D).OkWith P i p n.applyNext := by
  have hread : ∀ {w g}, Good D.numNodes w g → Memory D i n w g →
      ∃ (k : ℕ) (e : LogEntry), n.lastApplied + 1 = k ∧ n.store.log[k]? = some e ∧
        n.logRead (n.lastApplied + 1) = some e ∧ applyOrder w i (w.inc i) = upTo k := by
    intro w g hg hm
    obtain ⟨m, hcm, hheld⟩ := hm.commit
    obtain ⟨k, hk, horder⟩ := hm.applied
    have hmlen := hheld.le_length
    have hloglt := hm.log_lt hg
    have hklt : k < n.store.log.length := by omega
    refine ⟨k, n.store.log[k], hk, List.getElem?_eq_getElem hklt, ?_, horder⟩
    rw [hk, Node.logRead_eq (by omega), List.getElem?_eq_getElem hklt]
  unfold Node.applyNext
  dsimp only
  split
  · rename_i hnone
    refine h.mem rfl fun w g _ hg hm _ => ?_
    obtain ⟨k, e, -, -, hsome, -⟩ := hread hg hm
    rw [show n.logRead (n.lastApplied + 1) = none from hnone] at hsome
    cases hsome
  · rename_i entry hentry
    replace hentry : n.logRead (n.lastApplied + 1) = some entry := hentry
    let n₁ : Node Disk := { n with lastApplied := n.lastApplied + 1 }
    have h₁ : (logic D).OkWith P i p (n₁.note (.apply (n.lastApplied + 1) entry)) := by
      refine h.effect hP.stable rfl (fun _ _ _ => trivial) fun w g _ hg hm hPw _ => ?_
      obtain ⟨k, e, hk, hlog, hsome, horder⟩ := hread hg hm
      obtain rfl := Option.some.inj (hentry.symm.trans hsome)
      have hm' : Memory D i n w g := hm
      have hg' : Good D.numNodes w g := hg
      obtain ⟨m, hcm, hheld⟩ := hm'.commit
      obtain ⟨T, q, hc, -, hq⟩ := hheld.entry (by omega) hlog
      refine ⟨g, .refl, hg'.record (i := i) .refl rfl rfl rfl nofun ⟨k, hk, T, q, hc, hq⟩
        (hg'.chronicle.record (Grows.refl g) (fun ho hx _ => .inl ⟨ho, hx⟩) nofun (fun he => ?_)
          nofun), ?_, hP.record hPw⟩
      · obtain ⟨rfl, rfl⟩ := Event.apply.inj he
        exact ⟨k, hk, horder⟩
      · refine ⟨hm'.lt, hm'.disk, hm'.config, hm'.commit, ⟨k + 1, ?_, ?_⟩, hm'.candidate,
          fun hr => ⟨(hm'.leader hr).owner, (hm'.leader hr).next, (hm'.leader hr).acked⟩⟩
        · show n.lastApplied + 1 + 1 = _
          rw [hk]
          rfl
        · show applyOrder (w.record i (.apply (n.lastApplied + 1) entry)) i (w.inc i) = _
          rw [applyOrder_record_apply, horder, upTo_succ, hk]
    split
    · exact replyOutstanding_ok h₁ hP hentry (by
        show n.lastApplied + 1 ≤ n.commitIndex
        omega)
    · exact h₁

theorem applyToStateMachine_ok {P : World × Ghost → Prop} (h : (logic D).OkWith P i p n)
    (hP : Steady D i P) : (logic D).OkWith P i p n.applyToStateMachine := by
  unfold Node.applyToStateMachine
  generalize (n.commitIndex - n.lastApplied).toNat = fuel
  induction fuel generalizing n with
  | zero => exact h
  | succ fuel ih =>
      unfold Node.applyLoop
      split
      · rename_i hlt
        exact ih (applyNext_ok h hP hlt)
      · exact h

/-! ### Committing -/

/-- The nodes that the leader counts for entry `k` hold the log up to it. -/
theorem committed_of_replicas {w : World} {g : Ghost} (hg : Good D.numNodes w g)
    (hm : Memory D i n w g) (hr : n.role = .leader) {k : ℕ} {e : LogEntry}
    (hk : n.store.log[k]? = some e) (he : e.term = n.store.currentTerm)
    (hcount : n.replicaCount k > n.config.numNodes / 2)
    (hself : (n.store.currentTerm, i, n.store.log.take (k + 1)) ∈ g.acks) :
    Committed (scheme D.numNodes) g n.store.currentTerm (n.store.log.take (k + 1)) := by
  have hlead := leader_log hg hm hr
  have hleads := hm.leader hr
  have hid := hm.id_eq
  refine ⟨by simp [hleads.owner], by rw [hlead]; exact List.take_prefix _ _, ⟨e, ?_, he⟩,
    n.replicas k, ⟨?_, ?_⟩, fun j hj => ?_⟩
  · rw [List.take_add_one, hk]
    simp
  · rw [Node.replicas, hm.numNodes_eq, hid]
    exact Finset.insert_subset (Finset.mem_range.mpr hm.lt) (Finset.filter_subset _ _)
  · rw [← Node.replicaCount_eq, ← hm.numNodes_eq]
    exact hcount
  · rcases Finset.mem_insert.mp hj with hj | hj
    · exact ⟨_, List.prefix_rfl, by rw [hj, hid]; exact hself⟩
    · obtain ⟨-, -, hmatch⟩ := Finset.mem_filter.mp hj
      rw [List.getD_eq_getElem?_getD] at hmatch
      cases hget : n.matchIndex[j]? with
      | none =>
          rw [hget] at hmatch
          simp at hmatch
          omega
      | some m =>
          rw [hget, Option.getD_some] at hmatch
          obtain ⟨-, q, hq, hlen⟩ := hleads.acked hget (by omega)
          refine ⟨q, ?_, hq⟩
          have hql := (hg.inv.acked hq).2.2.1
          rw [hlead] at hql
          exact List.prefix_of_prefix_length_le (List.take_prefix _ _) hql (by
            rw [List.length_take]
            omega)

theorem tryCommit_ok (h : (logic D).Ok i p n) (hr : n.role = .leader)
    (hlog : n.store.log.length < 2 ^ 31) {k : ℕ} (hk : k < n.store.log.length) :
    (logic D).Ok i p (n.tryCommit n.store.currentTerm k) := by
  have hget : n.store.log[k]? = some n.store.log[k] := List.getElem?_eq_getElem hk
  unfold Node.tryCommit
  split
  · exact h
  rename_i hterm
  rw [not_not, Node.raftGetLogTerm_eq hlog hget] at hterm
  split
  · rename_i hcount
    refine h.effect rfl (fun _ _ _ => trivial) fun w g _ hg hm _ => ?_
    have hg' : Good D.numNodes w g := hg
    have hm' : Memory D i n w g := hm
    have hown := (hm'.leader hr).owner
    have hgt := hm'.term_eq hg'
    have hpre : n.store.log.take (k + 1) <+: n.store.log := List.take_prefix _ _
    -- the leader acknowledges its own log first
    let g' : Ghost := { g with
      acks := insert (g.term i, i, n.store.log.take (k + 1)) g.acks }
    have hmove : Moves (scheme D.numNodes) i g g' := by
      refine Relation.ReflTransGen.single (.ack (by simp [hgt, hown]) ?_ ?_)
      · rw [hgt, leader_log hg' hm' hr]
        exact hpre
      · rw [hm'.log_eq hg']
        exact hpre
    have hgrows := hmove.grows hg'.inv
    have hgood₀ : Good D.numNodes w g' := by
      refine hg'.move hmove (fun _ _ => rfl) (hg'.term i) (hg'.log i) (hg'.log_lt i) hg'.owner
        hg'.owner_pos (fun _ hp => .inl hp) (fun _ hr => .inl hr)
        (hg'.chronicle.mono hgrows rfl (fun _ => le_rfl) rfl rfl)
    have hmem₀ : Memory D i n w g' := hm'.grow hgrows rfl rfl
    have hc := committed_of_replicas hgood₀ hmem₀ hr hget hterm hcount
      (by rw [← hgt]; exact Set.mem_insert _ _)
    have hdisk : (w.disk i).log = n.store.log := by rw [hm'.disk]
    refine ⟨g', hmove, hgood₀.record (i := i) .refl rfl rfl rfl nofun ⟨k + 1, rfl, ?_, ?_⟩
      (hgood₀.chronicle.record_plain (Grows.refl g') (fun ho => .inl ⟨ho, rfl⟩) nofun nofun nofun),
      hm'.lt, hm'.disk, hm'.config, ⟨k + 1, rfl, .inr ⟨_, _, hc, le_rfl, ?_, ?_⟩⟩, ?_,
      hmem₀.candidate, fun hr' => ⟨(hmem₀.leader hr').owner, (hmem₀.leader hr').next,
        (hmem₀.leader hr').acked⟩⟩
    · show k + 1 ≤ (w.disk i).log.length
      rw [hdisk]
      exact hk
    · show Committed _ g' _ ((w.disk i).log.take (k + 1))
      rw [hdisk]
      exact hc
    · rw [List.length_take]
      omega
    · rw [List.take_take, min_self]
      exact hpre
    · show ∃ m : ℕ, n.lastApplied + 1 = m ∧
        applyOrder (w.record i (.commit n.store.currentTerm k)) i (w.inc i) = upTo m
      rw [applyOrder_record (by simp)]
      exact hm'.applied
  · exact h

theorem commitLoop_ok (h : (logic D).Ok i p n) (hr : n.role = .leader)
    (hlog : n.store.log.length < 2 ^ 31) (hpos : 0 ≤ n.commitIndex + 1) :
    (logic D).Ok i p (n.commitLoop n.store.currentTerm n.store.log.length) := by
  obtain ⟨m, hm⟩ := Int.eq_ofNat_of_zero_le hpos
  unfold Node.commitLoop
  dsimp only
  rw [hm]
  refine (Node.foldl_range_induct (motive := fun _ m => (logic D).Ok i p m ∧
    m = { n with commitIndex := m.commitIndex, script := m.script }) _ ⟨h, rfl⟩
    fun k m' hk hm' => ?_).1
  obtain ⟨hok, heq⟩ := hm'
  have hs : m'.store = n.store := by rw [heq]
  have hr' : m'.role = .leader := by
    rw [heq]
    exact hr
  rw [← Nat.cast_add]
  have hnext := tryCommit_ok hok hr' (hs ▸ hlog) (k := m + k) (by rw [hs]; omega)
  rw [hs] at hnext
  refine ⟨hnext, ?_⟩
  unfold Node.tryCommit
  split
  · exact heq
  · split
    · rw [heq]
      rfl
    · exact heq

/-! ### Accepting a client request -/

/-- The log of an owner and the leading log of its term grow by the same entry. -/
theorem Good.accept {N : ℕ} {w : World} {g : Ghost} (hg : Good N w g) {e : LogEntry} {d : Disk}
    (hown : g.owner (g.term i) = some i) (he : e.term = g.term i)
    (hd : d = { w.disk i with log := (w.disk i).log ++ [e] }) (hlt : d.log.length < 2 ^ 31) :
    Good N (({ w with disk := Function.update w.disk i d } : World).record i
      (.accept (w.disk i).log.length e))
      { g with
        log := Function.update g.log i (g.log i ++ [e])
        lead := Function.update g.lead (g.term i) (g.log i ++ [e]) } := by
  have hmove : Moves (scheme N) i g _ := .single (.append hown he)
  have hlog := hg.log i
  have hlead : g.lead (g.term i) = g.log i := ((hg.inv.owner_log hown).2 rfl).symm
  have hnone : g.owner e.term ≠ none := by simp [he, hown]
  have hgrows := hmove.grows hg.inv
  refine hg.move hmove (fun j hj => ?_) ?_ ?_ ?_ (fun {t j} => ?_) hg.owner_pos
    (fun _ hp => .inl hp) (fun r hr => ?_) ?_
  · simp [hj]
  · simp [hd, hg.term i]
  · simp [hd, hlog]
  · simpa using hlt
  · rw [won_record, or_iff_left nofun]
    exact hg.owner
  · refine (List.mem_append.mp hr).imp_right fun hr => ?_
    rw [List.mem_singleton.mp hr]
    refine ⟨hnone, ?_⟩
    simp [he, hlog]
  · have hstored : Chronicle N { w with disk := Function.update w.disk i d } g :=
      hg.chronicle.mono (Grows.refl g) rfl (fun _ => le_rfl) rfl rfl
    refine hstored.record hgrows (fun {t k x} ho hx ht => ?_) (fun {k x} hev r hr y hy hterm => ?_)
      nofun nofun
    · by_cases heq : t = g.term i
      · subst heq
        simp only [Function.update_self] at hx
        rw [hlead]
        rw [List.getElem?_append] at hx
        split at hx
        · exact .inl ⟨ho, hx⟩
        · rw [List.getElem?_singleton] at hx
          split at hx
          · obtain rfl := Option.some.inj hx
            refine .inr ?_
            rw [← hlog]
            congr
            omega
          · cases hx
      · simp only [Function.update_of_ne heq] at hx
        exact .inl ⟨ho, hx⟩
    · -- the leading log was too short for an earlier record at this place
      obtain ⟨rfl, rfl⟩ := Event.accept.inj hev
      have hrec := hg.records r hr
      simp only [RecordOk, hy] at hrec
      rw [← hterm, he, hlead, hlog] at hrec
      have := (List.getElem?_eq_some_iff.mp hrec.2).1
      omega

theorem appendLogEntry_ok (h : (logic D).Ok i p n) (hr : n.role = .leader) {entry : LogEntry}
    (hterm : entry.term = n.store.currentTerm) (hlog : n.store.log.length + 1 < 2 ^ 31) :
    (logic D).Ok i p (n.appendLogEntry entry) := by
  have hstore := Node.logWrite_end (n := n) (by omega) entry
    (some (.accept n.store.log.length entry))
  rw [Node.appendLogEntry_eq (by omega)]
  refine h.effect rfl (fun _ _ _ => trivial) fun w g _ hg hm _ => ?_
  have hg' : Good D.numNodes w g := hg
  have hm' : Memory D i n w g := hm
  have hgt := hm'.term_eq hg'
  have hown : g.owner (g.term i) = some i := by rw [hgt, (hm'.leader hr).owner]
  generalize hd : (Storage.write (n.store.log.length : ℤ) entry n.store).2 = d
  have hd' : d = { n.store with log := n.store.log ++ [entry] } := hd.symm.trans hstore
  have hmove : Moves (scheme D.numNodes) i g _ :=
    .single (.append (e := entry) hown (hterm.trans hgt.symm))
  have hgrows := hmove.grows hg'.inv
  have hpre : n.store.log <+: n.store.log ++ [entry] := List.prefix_append _ _
  refine ⟨_, hmove, ?_, ?_⟩
  · have hlen : n.store.log.length = (w.disk i).log.length := by rw [hm'.disk]
    rw [hlen]
    refine hg'.accept hown (hterm.trans hgt.symm) (by rw [hd', hm'.disk]) ?_
    rw [hd', List.length_append]
    exact hlog
  · obtain ⟨m, hcm, hheld⟩ := hm'.commit
    refine ⟨hm'.lt, ?_, hm'.config, ⟨m, hcm, ?_⟩, ?_, fun hcand => ?_, fun _ => ?_⟩
    · rw [hstore, ← hd']
      exact Function.update_self _ _ _
    · rw [hstore]
      exact hheld.mono hgrows le_rfl hpre
    · show ∃ m : ℕ, n.lastApplied + 1 = m ∧ applyOrder (World.record _ _ _) i (w.inc i) = upTo m
      rw [applyOrder_record (by simp)]
      exact hm'.applied
    · exact absurd (hr.symm.trans hcand) nofun
    · obtain ⟨ho, hnext, hack⟩ := hm'.leader hr
      refine ⟨?_, fun x hx => ?_, fun hj hm => ?_⟩
      · rw [hstore]
        exact ho
      · rw [hstore, List.length_append]
        exact (hnext x hx).trans (Nat.le_add_right _ _)
      · rw [hstore]
        exact hack hj hm

end GeoRaft.Replication
