import GeoRaft.Cluster.Entries

/-!
Elections, seen from the log: the log a candidate stands with, what a voter
compares it to, and the log a leader starts with. Which votes there are and who
wins is known from the tally of the world; here they become moves of the
replicated log.
-/

namespace GeoRaft.Replication

open ReplicatedLog Quorum Election Word Script

variable {D : Deployment} {i : ℕ} {p : World × Ghost} {n n' : Node Disk} {pkt : Pkt}

/-- The packet was sent. What it says can be looked up whenever it is needed. -/
def Sent (pkt : Pkt) (q : World × Ghost) : Prop := pkt ∈ q.1.sent

theorem Sent.steady : Steady D i (Sent pkt) where
  stable v w h hv := by
    obtain ⟨s, hs, -⟩ := h.1.sent
    rw [Sent, hs]
    exact List.mem_append_left _ hv
  send h := List.mem_append_left _ h
  record h := h

/-! ### Becoming a follower -/

theorem becomeFollower_ok {env : Env} {t l : ℕ} (h : (logic D).OkWith (Sent pkt) i p n)
    (hlt : t < 2 ^ 31) (ht : n.store.currentTerm ≤ t) :
    (logic D).OkWith (Sent pkt) i p (n.becomeFollower env t l) := by
  let n₀ := n.note (.becameFollower t)
  let n₁ : Node Disk := { n₀ with role := .follower }
  let n₂ := n₁.set .currentTerm t
  let n₃ := n₂.set .votedFor pfNoVote
  have hd₂ : n₂.store = { n.store with currentTerm := t } := by
    rw [Node.set_store, Disk.set_currentTerm, u32_of_nat (by omega)]
    rfl
  have hd₃ : n₃.store = { n₂.store with votedFor := pfNoVote } := by
    rw [Node.set_store, Disk.set_votedFor, u32_of_nat (by decide)]
  have h₀ : (logic D).OkWith (Sent pkt) i p n₀ := by
    refine ok_note h Sent.steady nofun nofun fun hg hm _ => ⟨trivial, ?_⟩
    exact hg.chronicle.record_plain (Grows.refl _) (fun ho => .inl ⟨ho, rfl⟩) nofun nofun nofun
  have h₁ : (logic D).OkWith (Sent pkt) i p n₁ :=
    h₀.mem rfl fun w g _ _ hm _ => ⟨hm.lt, hm.disk, hm.config, hm.commit, hm.applied, nofun, nofun⟩
  have h₂ : (logic D).OkWith (Sent pkt) i p n₂ := by
    refine h₁.effect Sent.steady.stable rfl (fun _ _ _ => trivial) fun w g _ hg hm hsent _ => ?_
    have hg' : Good D.numNodes w g := hg
    have hm' : Memory D i n₁ w g := hm
    have hgt : g.term i = n.store.currentTerm := hm'.term_eq hg'
    -- the term of the node moves on, unless it is the term it is in
    have hmove : ∃ g', Moves (scheme D.numNodes) i g g' ∧ g'.term i = t ∧ g'.log i = g.log i ∧
        g'.owner = g.owner ∧ g'.lead = g.lead ∧ Grows g g' := by
      rcases eq_or_lt_of_le ht with heq | hgt'
      · exact ⟨g, .refl, by rw [hgt, heq], rfl, rfl, rfl, Grows.refl g⟩
      · have hs := Step.advance (S := scheme D.numNodes) (g := g) (i := i) (t := t) (by omega)
        exact ⟨_, .single hs, by simp, rfl, rfl, rfl, hs.grows hg'.inv⟩
    obtain ⟨g', hm₂, hterm, hlog, ho, hl, hgrows⟩ := hmove
    have hs : (Storage.set .currentTerm t n₁.store).2 = n₂.store := rfl
    rw [hs, hd₂]
    refine ⟨g', hm₂, hg'.store hm₂ hterm ?_ (hm'.log_lt hg') ho hl, ?_,
      hsent⟩
    · rw [hlog]
      exact hm'.log_eq hg'
    · obtain ⟨m, hcm, hheld⟩ := hm'.commit
      refine ⟨hm'.lt, ?_, hm'.config, ⟨m, hcm, ?_⟩, hm'.applied, nofun, nofun⟩
      · rw [hd₂]
        exact Function.update_self _ _ _
      · rw [hd₂]
        exact hheld.mono hgrows ht List.prefix_rfl
  have h₃ : (logic D).OkWith (Sent pkt) i p n₃ := by
    refine h₂.effect Sent.steady.stable rfl (fun _ _ _ => trivial) fun w g _ hg hm hsent _ => ?_
    have hg' : Good D.numNodes w g := hg
    have hm' : Memory D i n₂ w g := hm
    have hs : (Storage.set .votedFor pfNoVote n₂.store).2 = n₃.store := rfl
    rw [hs, hd₃]
    refine ⟨g, .refl, hg'.store (i := i) .refl (hm'.term_eq hg') (hm'.log_eq hg') (hm'.log_lt hg')
      rfl rfl, ?_, hsent⟩
    obtain ⟨m, hcm, hheld⟩ := hm'.commit
    refine ⟨hm'.lt, ?_, hm'.config, ⟨m, hcm, ?_⟩, hm'.applied, nofun, nofun⟩
    · rw [hd₃]
      exact Function.update_self _ _ _
    · rw [hd₃]
      exact hheld
  exact ok_mem h₃ rfl rfl rfl rfl rfl rfl rfl rfl

/-! ### Granting a vote -/

/-- A vote of `i` for `c` is stored and recorded. -/
theorem Good.vote {N : ℕ} {w : World} {g : Ghost} (hg : Good N w g) {c : ℕ} {l : List LogEntry}
    {d : Disk} (hc : g.claim (g.term i) c = some l) (hu : (scheme N).UpToDate (g.log i) l)
    (ht : d.currentTerm = (w.disk i).currentTerm) (hl : d.log = (w.disk i).log) :
    Good N (({ w with disk := Function.update w.disk i d } : World).record i (.vote (g.term i) c))
      { g with ballots := insert (g.term i, i, c, g.log i) g.ballots } := by
  have hmove : Moves (scheme N) i g _ := .single (.vote hc hu)
  have hstored : Good N { w with disk := Function.update w.disk i d } g :=
    hg.store (i := i) .refl (by rw [ht, hg.term]) (by rw [hl, hg.log]) (by rw [hl]; exact hg.log_lt i)
      rfl rfl
  refine hstored.record hmove rfl rfl rfl nofun ⟨g.log i, Set.mem_insert _ _⟩ ?_
  exact hstored.chronicle.record_plain (hmove.grows hg.inv) (fun ho => .inl ⟨ho, rfl⟩) nofun nofun
    nofun

/-- What the check of the source decides is whether a log is behind another. -/
theorem upToDate_of_logIsUpToDate {w : World} {g : Ghost} (hg : Good D.numNodes w g)
    (hm : Memory D i n w g) {l : List LogEntry} (hl : l.length < 2 ^ 31)
    (h : n.logIsUpToDate (u32 ((l.length : ℤ) - 1)) ((scheme D.numNodes).lastTerm l) = true) :
    (scheme D.numNodes).UpToDate n.store.log l := by
  have hlast : termBefore n.store.log n.store.log.length =
      (scheme D.numNodes).lastTerm n.store.log := by
    rw [← lastTerm_take D.numNodes, List.take_length]
  rw [Node.logIsUpToDate_iff (hm.log_lt hg) hl, hlast] at h
  refine h.imp_right fun ⟨heq, hlen⟩ => ⟨heq, ?_⟩
  rcases hlen with hzero | ⟨-, hle⟩
  · -- the last term of the empty log is 0, which is the term of no entry
    obtain rfl := List.length_eq_zero_iff.mp hzero
    rcases List.eq_nil_or_concat n.store.log with hnil | ⟨l', x, hx⟩
    · simp [hnil]
    · rw [List.concat_eq_append] at hx
      have htr := hg.inv.log_traced i
      rw [hm.log_eq hg, hx] at htr
      have hpos := hg.owner_pos (htr.last (e := x) (by simp)).1
      rw [hx, Scheme.lastTerm_append_singleton, Scheme.lastTerm_nil] at heq
      omega
  · exact hle

/-- Answering a candidate whose term the node is in. -/
theorem decideVote_ok {env : Env} {t : ℕ} {req : RequestVoteReq}
    (h : (logic D).OkWith (Sent pkt) i p n) (hpkt : pkt.rpc = .requestVoteReq req)
    (hsrc : req.candidateId = pkt.src) (ht : n.store.currentTerm = t) (hreq : req.term = t) :
    (logic D).Ok i p (n.decideVote env t req) := by
  unfold Node.decideVote
  generalize n.get .votedFor = v
  dsimp only
  split
  · exact h.ok
  split
  · exact ok_send h.ok Steady.true fun _ _ _ _ _ => trivial
  · rename_i hneg hgrant
    have hupToDate : n.logIsUpToDate req.lastLogIdx req.lastLogTerm = true := by
      simpa using fun hno => hgrant (.inr hno)
    let n₁ := n.set .votedFor req.candidateId (some (.vote t req.candidateId))
    have hd₁ : n₁.store = { n.store with votedFor := u32 req.candidateId } := by
      rw [Node.set_store, Disk.set_votedFor]
    have h₁ : (logic D).Ok i p n₁ := by
      refine h.effect Sent.steady.stable rfl (fun _ _ _ => trivial) fun w g _ hg hm hsent _ => ?_
      have hg' : Good D.numNodes w g := hg
      have hm' : Memory D i n w g := hm
      have hgt := hm'.term_eq hg'
      have hask := hg'.packets pkt hsent
      rw [PacketOk, hpkt] at hask
      obtain ⟨l, hclaim, hlen, hidx, hlast⟩ := hask
      rw [hidx, hlast] at hupToDate
      have hs : (Storage.set .votedFor req.candidateId n.store).2 = n₁.store := rfl
      rw [hs, hd₁]
      have hterm : g.term i = t := hgt.trans ht
      have hclaim' : g.claim (g.term i) req.candidateId = some l := by
        rw [hterm, ← hreq, hsrc]
        exact hclaim
      have hu : (scheme D.numNodes).UpToDate (g.log i) l := by
        rw [hm'.log_eq hg']
        exact upToDate_of_logIsUpToDate hg' hm' hlen hupToDate
      have hmove : Moves (scheme D.numNodes) i g _ := .single (.vote hclaim' hu)
      have hgood := hg'.vote (d := { n.store with votedFor := u32 req.candidateId }) hclaim' hu
        (by rw [hm'.disk]) (by rw [hm'.disk])
      rw [hterm] at hgood hmove
      have hgrown : Memory D i n w _ := hm'.grow (hmove.grows hg'.inv) rfl rfl
      refine ⟨_, hmove, hgood, hgrown.congr ?_ rfl (applyOrder_record (by simp) i _) (by rw [hd₁])
        (by rw [hd₁]) rfl rfl rfl rfl rfl rfl, trivial⟩
      rw [hd₁]
      exact Function.update_self _ _ _
    have h₂ : (logic D).Ok i p (n₁.setElectionTimer env) :=
      ok_mem h₁ rfl rfl rfl rfl rfl rfl rfl rfl
    exact ok_send h₂ Steady.true fun _ _ _ _ _ => trivial

/-! ### Standing for election -/

/-- The loop of `broadcast_request_vote`: every request carries the log that the
candidate stands with. -/
theorem broadcastRequestVote_ok (h : (logic D).Ok i p n) (hr : n.role = .candidate)
    (hlt : n.store.currentTerm < 2 ^ 31) : (logic D).Ok i p n.broadcastRequestVote := by
  unfold Node.broadcastRequestVote
  dsimp only
  split
  · exact h
  · rw [get_currentTerm_eq hlt]
    generalize hreq : RequestVoteReq.mk n.store.currentTerm n.config.id
      (u32 (n.logLength - 1)) (n.raftGetLogTerm (i32 (n.logLength - 1))) = req
    have hfields : req.term = n.store.currentTerm ∧ req.lastLogIdx = u32 (n.logLength - 1) ∧
        req.lastLogTerm = n.raftGetLogTerm (i32 (n.logLength - 1)) := by
      subst hreq
      simp only [and_self]
    refine (Node.forOthers_induct (motive := fun _ m => (logic D).Ok i p m ∧
      m = { n with script := m.script }) n ⟨h, rfl⟩ fun k m _ ⟨hm, heq⟩ => ?_).1
    split
    · exact ⟨hm, heq⟩
    · refine ⟨ok_send hm Steady.true fun w g hg hmem _ => ?_, by rw [heq]; rfl⟩
      have hmr : m.role = .candidate := by
        rw [heq]
        exact hr
      have hms : m.store = n.store := by rw [heq]
      obtain ⟨-, hclaim, -⟩ := hmem.candidate hmr
      have hlog := hmem.log_lt hg
      rw [hms] at hclaim hlog
      obtain ⟨hterm, hidx, hlast⟩ := hfields
      refine ⟨n.store.log, by rw [hterm]; exact hclaim, hlog, ?_, ?_⟩
      · rw [hidx, Node.logLength_eq hlog]
      · rw [hlast, Node.raftGetLogTerm_last hlog, ← lastTerm_take D.numNodes, List.take_length]

/-- A process claims its own log for a term. -/
theorem Good.stand {N : ℕ} {w : World} {g : Ghost} (hg : Good N w g)
    (hc : g.claim (g.term i) i = none) :
    Good N w { g with
      claim := Function.update g.claim (g.term i)
        (Function.update (g.claim (g.term i)) i (some (g.log i))) } := by
  have hmove : Moves (scheme N) i g _ := .single (.stand hc)
  exact hg.move hmove (fun _ _ => rfl) (hg.term i) (hg.log i) (hg.log_lt i) hg.owner hg.owner_pos
    (fun _ hp => .inl hp) (fun _ hr => .inl hr)
    (hg.chronicle.mono (hmove.grows hg.inv) rfl (fun _ => le_rfl) rfl rfl)

/-- The node `n` is `m` after changes of memory alone, and stands for election. -/
theorem startElection_ok {env : Env} {m : Node Disk} (h : (logic D).Ok i p m)
    (hs : n.script = m.script) (hd : n.store = m.store) (hc : n.config = m.config)
    (hci : n.commitIndex = m.commitIndex) (hla : n.lastApplied = m.lastApplied)
    (hr : n.role = .candidate) (hid : n.config.id = i) (hlt : n.store.currentTerm < 2 ^ 31)
    (hlt' : (n.startElection env).store.currentTerm < 2 ^ 31) :
    (logic D).Ok i p (n.startElection env) := by
  rw [Node.startElection_currentTerm env n hlt] at hlt'
  rw [Node.startElection_eq env n hlt]
  generalize hT : n.store.currentTerm + 1 = T at hlt' ⊢
  let n₁ : Node Disk := { n.set .currentTerm T with role := .follower }
  let n₂ : Node Disk :=
    { (n.set .currentTerm T).set .votedFor n.config.id (some (.vote T n.config.id)) with
      votesReceived := 1 }
  have hd₁ : n₁.store = { m.store with currentTerm := T } := by
    show (Storage.set .currentTerm T n.store).2 = _
    rw [Disk.set_currentTerm, u32_of_nat (by omega), hd]
  have hd₂ : n₂.store = { n₁.store with votedFor := u32 i } := by
    show (Storage.set .votedFor n.config.id n₁.store).2 = _
    rw [Disk.set_votedFor, hid]
  have hterm₂ : n₂.store.currentTerm = T := by rw [hd₂, hd₁]
  -- nobody stood or won as `i` in the new term
  let P : World × Ghost → Prop := fun q => q.2.claim T i = none ∧ q.2.owner T ≠ some i
  have hP : Stable ((logic D).setting i) P := fun _ _ hrely hq =>
    ⟨by rw [hrely.2.1.claim_eq]; exact hq.1, fun ho => hq.2 (hrely.2.1.owner_of ho)⟩
  have h₁ : (logic D).OkWith P i p n₁ := by
    refine Logic.OkWith.effect h Steady.true.stable (congrArg (· ++ [_]) hs) (fun _ _ _ => trivial)
      fun w g _ hg hm _ _ => ?_
    have hg' : Good D.numNodes w g := hg
    have hm' : Memory D i m w g := hm
    have hgt := hm'.term_eq hg'
    rw [hd] at hT
    have hadv := Step.advance (S := scheme D.numNodes) (g := g) (i := i) (t := T) (by omega)
    have hgrows := hadv.grows hg'.inv
    have hst : (Storage.set .currentTerm T n.store).2 = n₁.store := rfl
    rw [hst, hd₁]
    refine ⟨_, .single hadv, hg'.store (.single hadv) (by simp) (hm'.log_eq hg') (hm'.log_lt hg')
      rfl rfl, ?_, ?_, fun ho => ?_⟩
    · obtain ⟨k, hk, hheld⟩ := hm'.commit
      refine ⟨hm'.lt, ?_, hc.trans hm'.config, ⟨k, ?_, ?_⟩, ?_, nofun, nofun⟩
      · rw [hd₁]
        exact Function.update_self _ _ _
      · rw [← hk, ← hci]
        rfl
      · rw [hd₁]
        refine hheld.mono hgrows ?_ List.prefix_rfl
        show m.store.currentTerm ≤ T
        omega
      · obtain ⟨k, hk, horder⟩ := hm'.applied
        exact ⟨k, by rw [← hk, ← hla]; rfl, horder⟩
    · by_contra hclaim
      have := hg'.inv.claim_le hclaim
      omega
    · have := (hg'.inv.owner_log ho).1
      omega
  have h₂ : (logic D).Ok i p n₂ := by
    refine h₁.effect hP rfl (fun _ _ _ => trivial) fun w g _ hg hm hnew _ => ?_
    have hg' : Good D.numNodes w g := hg
    have hm' : Memory D i n₁ w g := hm
    have hgt : g.term i = T := by rw [hm'.term_eq hg', hd₁]
    have hgl := hm'.log_eq hg'
    have hst : (Storage.set .votedFor n.config.id (n.set .currentTerm T).store).2 = n₂.store := rfl
    rw [hst, hd₂, hid]
    have hnone : g.claim (g.term i) i = none := by
      rw [hgt]
      exact hnew.1
    let g₁ : Ghost := { g with
      claim := Function.update g.claim (g.term i)
        (Function.update (g.claim (g.term i)) i (some (g.log i))) }
    have hclaim : g₁.claim (g₁.term i) i = some (g₁.log i) := by simp [g₁]
    have hgood₁ : Good D.numNodes w g₁ := hg'.stand hnone
    have hu := Scheme.UpToDate.refl (scheme D.numNodes) (g₁.log i)
    have hgood₂ := hgood₁.vote (d := { n₁.store with votedFor := u32 i }) hclaim hu
      (by rw [hm'.disk]) (by rw [hm'.disk])
    have hmoves : Moves (scheme D.numNodes) i g _ :=
      (Relation.ReflTransGen.single (.stand hnone)).tail (.vote hclaim hu)
    have hgt₁ : g₁.term i = T := hgt
    rw [hgt₁] at hgood₂ hmoves hclaim
    have hpos : 1 ≤ T := by omega
    refine ⟨_, hmoves, hgood₂, ⟨hm'.lt, ?_, hm'.config, ?_, ?_, fun _ => ?_, ?_⟩, trivial⟩
    · rw [hd₂]
      exact Function.update_self _ _ _
    · obtain ⟨k, hk, hheld⟩ := hm'.commit
      refine ⟨k, hk, ?_⟩
      rw [hd₂]
      exact hheld.mono (hmoves.grows hg'.inv) le_rfl List.prefix_rfl
    · show ∃ m : ℕ, n.lastApplied + 1 = m ∧ applyOrder (World.record _ _ _) i (w.inc i) = upTo m
      rw [applyOrder_record (by simp)]
      exact hm'.applied
    · rw [hterm₂]
      refine ⟨hpos, hclaim.trans ?_, hnew.2⟩
      rw [hd₂]
      exact congrArg some hgl
    · exact fun hlead => absurd (hr.symm.trans hlead) nofun
  have h₃ : (logic D).Ok i p (n₂.setElectionTimer env) :=
    ok_mem h₂ rfl rfl rfl rfl rfl rfl rfl rfl
  refine broadcastRequestVote_ok h₃ hr ?_
  rw [Node.setElectionTimer_store, hterm₂]
  exact hlt'

theorem becomeCandidate_ok {env : Env} (h : (logic D).Ok i p n) (hid : n.config.id = i)
    (hlt : n.store.currentTerm < 2 ^ 31)
    (hlt' : (n.becomeCandidate env).store.currentTerm < 2 ^ 31) :
    (logic D).Ok i p (n.becomeCandidate env) := by
  dsimp only [Node.becomeCandidate] at hlt' ⊢
  exact startElection_ok h rfl rfl rfl rfl rfl rfl hid hlt hlt'

/-! ### Winning -/

/-- The votes the tally knows of were cast in the replicated log. -/
theorem Good.ballots_of_won {N : ℕ} {w : World} {g : Ghost} (hg : Good N w g) {t : ℕ}
    (hT : Tally N (fun _ => True) (w.record i (.becameLeader t))) :
    ∃ Q, Majority N Q ∧ ∀ j ∈ Q, ∃ l, (t, j, i, l) ∈ g.ballots := by
  obtain ⟨-, Q, hQ, hvotes⟩ := hT.won (won_record.mpr (.inr ⟨rfl, rfl⟩))
  refine ⟨Q, hQ, fun j hj => ?_⟩
  obtain ⟨r, hr, rfl, hev⟩ := (voted_record.mp (hvotes j hj)).resolve_right fun h => nomatch h.2
  have hrec := hg.records r hr
  rw [RecordOk, hev] at hrec
  exact hrec

/-- A term that is won now had no owner yet. -/
theorem Good.owner_none {N : ℕ} {w : World} {g : Ghost} (hg : Good N w g) {t : ℕ}
    (hT : Tally N (fun _ => True) (w.record i (.becameLeader t))) (ho : g.owner t ≠ some i) :
    g.owner t = none := by
  by_contra hne
  obtain ⟨j, hj⟩ := Option.ne_none_iff_exists'.mp hne
  have hwon : Won (w.record i (.becameLeader t)) j t := won_record.mpr (.inl (hg.owner.mp hj))
  obtain rfl := hT.won_unique hwon (won_record.mpr (.inr ⟨rfl, rfl⟩))
  exact ho hj

/-- A candidate with a majority becomes the owner of its term. -/
theorem Good.win {N : ℕ} {w : World} {g : Ghost} (hg : Good N w g) {Q : Finset ℕ}
    (ho : g.owner (g.term i) = none) (hc : g.claim (g.term i) i = some (g.log i))
    (hQ : Majority N Q) (hb : ∀ j ∈ Q, ∃ l, (g.term i, j, i, l) ∈ g.ballots)
    (hpos : 1 ≤ g.term i) :
    Good N (w.record i (.becameLeader (g.term i)))
      { g with
        owner := Function.update g.owner (g.term i) (some i)
        elect := Function.update g.elect (g.term i) (g.log i)
        lead := Function.update g.lead (g.term i) (g.log i) } := by
  have hmove : Moves (scheme N) i g _ := .single (.win ho hc hQ hb)
  refine hg.move hmove (fun _ _ => rfl) (hg.term i) (hg.log i) (hg.log_lt i) (fun {t j} => ?_)
    (fun {t} ht => ?_) (fun _ hp => .inl hp) (fun r hr => ?_) ?_
  · rw [won_record]
    by_cases heq : t = g.term i
    · subst heq
      have hnone : ¬Won w j (g.term i) := fun hw => by
        rw [← hg.owner, ho] at hw
        cases hw
      simp [hnone]
    · have hne : (Event.becameLeader (g.term i) = .becameLeader t) ↔ False :=
        ⟨fun h => heq (Event.becameLeader.inj h).symm, False.elim⟩
      simp only [Function.update_of_ne heq, hne, and_false, or_false]
      exact hg.owner
  · by_cases heq : t = g.term i
    · exact heq ▸ hpos
    · exact hg.owner_pos (by simpa [heq] using ht)
  · refine (List.mem_append.mp hr).imp_right fun hr => ?_
    rw [List.mem_singleton.mp hr]
    show Function.update g.owner (g.term i) (some i) (g.term i) ≠ none ∧
      Function.update g.elect (g.term i) (g.log i) (g.term i) = (w.disk i).log
    simp [hg.log i]
  · refine hg.chronicle.record_plain (hmove.grows hg.inv) (fun {t} ht => ?_) nofun nofun nofun
    by_cases heq : t = g.term i
    · -- an entry of the term would have had an owner of the term
      subst heq
      refine .inr fun x hx hxt => ?_
      simp only [Function.update_self] at hx
      obtain ⟨k, hk⟩ := List.mem_iff_getElem?.mp hx
      exact (hg.inv.log_traced i k x hk).1 (by rw [← ho, ← hxt]; rfl)
    · exact .inl ⟨by simpa [heq] using ht, by simp [heq]⟩

theorem becomeLeader_ok {env : Env} (h : (logic D).Ok i p n) (hid : n.config.id = i)
    (hlt : n.store.currentTerm < 2 ^ 31) (hcand : n.role = .candidate) :
    (logic D).Ok i p (n.becomeLeader env) := by
  let n₁ : Node Disk := { n.note (.becameLeader n.store.currentTerm) with
    role := .leader
    nextIndex := List.replicate n.config.numNodes (u32 n.logLength)
    matchIndex := List.replicate n.config.numNodes (-1) }
  let n₂ : Node Disk := { n₁ with
    leaderId := noLeader
    heartbeatCount := 0
    heartbeatTelemetry := n.heartbeatTelemetry.reset }
  have h₁ : (logic D).Ok i p n₁ := by
    refine h.effect rfl (fun _ _ _ => trivial) fun w g _ hg hm hknown => ?_
    have hg' : Good D.numNodes w g := hg
    have hm' : Memory D i n w g := hm
    have hT : Tally D.numNodes (fun _ => True) (w.record i (.becameLeader n.store.currentTerm)) := hknown
    have hgt := hm'.term_eq hg'
    have hgl := hm'.log_eq hg'
    obtain ⟨hpos, hclaim, hno⟩ := hm'.candidate hcand
    obtain ⟨Q, hQ, hb⟩ := hg'.ballots_of_won hT
    have hnone := hg'.owner_none hT hno
    rw [← hgt] at hpos hclaim hb hnone
    rw [← hgl] at hclaim
    have hmove : Moves (scheme D.numNodes) i g _ := .single (.win hnone hclaim hQ hb)
    have hgood := hg'.win hnone hclaim hQ hb hpos
    rw [← hgt]
    refine ⟨_, hmove, hgood, hm'.lt, hm'.disk, hm'.config, ?_, ?_, nofun, fun _ => ⟨?_, ?_, ?_⟩⟩
    · obtain ⟨k, hk, hheld⟩ := hm'.commit
      exact ⟨k, hk, hheld.mono (hmove.grows hg'.inv) le_rfl List.prefix_rfl⟩
    · show ∃ m : ℕ, n.lastApplied + 1 = m ∧ applyOrder (World.record _ _ _) i (w.inc i) = upTo m
      rw [applyOrder_record (by simp)]
      exact hm'.applied
    · show Function.update g.owner (g.term i) (some i) n.store.currentTerm = some i
      rw [hgt, Function.update_self]
    · intro x hx
      have hxe : x = u32 n.logLength := List.eq_of_mem_replicate hx
      rw [hxe, Node.logLength_eq (hm'.log_lt hg'), u32_of_nat (by
        have := hm'.log_lt hg'
        omega)]
      exact le_rfl
    · intro j m hj hm
      have hme : m = -1 := List.eq_of_mem_replicate (List.mem_of_getElem? hj)
      omega
  have h₂ : (logic D).Ok i p n₂ := ok_mem h₁ rfl rfl rfl rfl rfl rfl rfl rfl
  have h₃ : (logic D).Ok i p (n₂.setHeartbeatTimer env) := ok_mem h₂ rfl rfl rfl rfl rfl rfl rfl rfl
  unfold Node.becomeLeader
  rw [get_currentTerm_eq hlt]
  exact sendHeartbeats_ok h₃ hid hlt

/-! ### Timeouts -/

theorem raftHandleTimeout_ok {env : Env} (h : (logic D).Ok i p n) (hid : n.config.id = i)
    (hlt : n.store.currentTerm < 2 ^ 31)
    (hlt' : (n.raftHandleTimeout env).store.currentTerm < 2 ^ 31) :
    (logic D).Ok i p (n.raftHandleTimeout env) := by
  unfold Node.raftHandleTimeout at hlt' ⊢
  cases hr : n.role with
  | follower =>
      simp only [hr] at hlt' ⊢
      split
      · rename_i hcond
        rw [if_pos hcond] at hlt'
        exact becomeCandidate_ok h hid hlt hlt'
      · rename_i hcond
        rw [if_neg hcond] at hlt'
        split
        · rename_i hfail
          rw [if_pos hfail] at hlt'
          exact becomeCandidate_ok h hid hlt hlt'
        · exact ok_mem h rfl rfl rfl rfl rfl rfl rfl rfl
  | candidate =>
      simp only [hr] at hlt' ⊢
      exact startElection_ok h rfl rfl rfl rfl rfl hr hid hlt hlt'
  | leader =>
      dsimp only
      have h₁ : (logic D).Ok i p (n.setHeartbeatTimer env) :=
        ok_mem h rfl rfl rfl rfl rfl rfl rfl rfl
      have h₂ := sendHeartbeats_ok h₁ hid hlt
      generalize (n.setHeartbeatTimer env).sendHeartbeats = m at h₂ ⊢
      have h₃ : (logic D).Ok i p { m with heartbeatCount := m.heartbeatCount + 1 } :=
        ok_mem h₂ rfl rfl rfl rfl rfl rfl rfl rfl
      split
      · refine h₃.effect (e := .exit) rfl (fun _ _ _ => trivial) fun w g _ hg hm _ => ?_
        exact ⟨g, .refl, hg, Memory.congr hm hm.disk rfl rfl rfl rfl rfl rfl rfl rfl rfl rfl⟩
      · exact h₃

end GeoRaft.Replication
