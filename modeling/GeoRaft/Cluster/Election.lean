import GeoRaft.Cluster.Votes
import GeoRaft.Cluster.Logic

/-!
Elections.

The votes of the world (`Tally`) and what a candidate knows of its own election
(`Stands`) are kept by every handler, effect by effect. What comes out is that a
term has at most one leader, and that a node votes at most once in a term as
long as no candidate meets the leader of its own term.
-/

namespace GeoRaft.Election

open Quorum Script Word

/-! ### What a node knows -/

/-- Node `i` is a candidate of term `t` and has counted `v` votes: its own and one
for each grant it has handled. -/
structure Stands (N : ℕ) (w : World) (i t v : ℕ) : Prop where
  voted : Voted w i t i
  own : ∀ c, Voted w i t c → c = i
  not_won : ¬Won w i t
  count : ∃ S ⊆ Finset.range N, i ∉ S ∧ v = S.card + 1 ∧
    ∀ j ∈ S, ∃ k ∈ w.handled, ∃ p, w.sent[k]? = some p ∧ Grants j i t p

structure Memory (D : Deployment) (i : ℕ) (n : Node Disk) (w : World) : Prop where
  lt : i < D.numNodes
  disk : w.disk i = n.store
  config : n.config = D.config i
  candidate : n.role = .candidate →
    n.store.votedFor = i ∧ Stands D.numNodes w i n.store.currentTerm n.votesReceived

theorem Memory.id_eq {D : Deployment} {i : ℕ} {n : Node Disk} {w : World} (h : Memory D i n w) :
    n.config.id = i := by
  rw [h.config, D.id_eq]

theorem Voted.mono {w w' : World} {j i t c : ℕ} (hi : Interf j w w') (h : Voted w i t c) :
    Voted w' i t c :=
  let ⟨r, hr, hrest⟩ := h
  ⟨r, hi.mem_history hr, hrest⟩

theorem Voted.own {w w' : World} {i t c : ℕ} (hi : Interf i w w') (h : Voted w' i t c) :
    Voted w i t c :=
  let ⟨r, hr, hrest⟩ := h
  ⟨r, hi.history_own hr hrest.1, hrest⟩

theorem Won.own {w w' : World} {i t : ℕ} (hi : Interf i w w') (h : Won w' i t) : Won w i t :=
  let ⟨r, hr, hrest⟩ := h
  ⟨r, hi.history_own hr hrest.1, hrest⟩

theorem StoodDown.mono {w w' : World} {j i t : ℕ} (hi : Interf j w w') (h : StoodDown w i t) :
    StoodDown w' i t :=
  let ⟨r, hr, hrest⟩ := h
  ⟨r, hi.mem_history hr, hrest⟩

theorem Stands.mono {N : ℕ} {w w' : World} {i t v : ℕ} (hi : Interf i w w')
    (h : Stands N w i t v) : Stands N w' i t v := by
  obtain ⟨S, hS, hiS, hv, hgrants⟩ := h.count
  refine ⟨h.voted.mono hi, fun c hc => h.own c (hc.own hi), fun hw => h.not_won (hw.own hi),
    S, hS, hiS, hv, fun j hj => ?_⟩
  obtain ⟨k, hk, p, hp, hg⟩ := hgrants j hj
  exact ⟨k, hi.handled hk, p, hi.sent_eq hp, hg⟩

def logic (D : Deployment) (B : ℕ → Prop) : Logic Unit where
  Known _ := True
  Good w _ := Tally D.numNodes B w
  Mem i n w _ := Memory D i n w
  Ghost _ _ _ := True
  Rely _ _ _ := True
  rely_refl := trivial
  rely_trans _ _ := trivial
  ghost_rely _ _ _ := trivial
  mem_stable hm hi _ _ := ⟨hm.lt, hi.disk.trans hm.disk, hm.config, fun hr =>
    ⟨(hm.candidate hr).1, (hm.candidate hr).2.mono hi⟩⟩
  mem_script _ hm := ⟨hm.lt, hm.disk, hm.config, hm.candidate⟩

variable {D : Deployment} {B : ℕ → Prop} {i : ℕ} {p : World × Unit} {n n' : Node Disk}

/-- A node whose effects and memory do not matter to its candidacy. -/
theorem Memory.quiet {w w' : World} (h : Memory D i n w) (hd : w'.disk i = n'.store)
    (hc : n'.config = n.config) (hr : n'.role = n.role)
    (hv : n'.votesReceived = n.votesReceived) (ht : n'.store.currentTerm = n.store.currentTerm)
    (hvf : n'.store.votedFor = n.store.votedFor)
    (hs : ∀ {t v}, Stands D.numNodes w i t v → Stands D.numNodes w' i t v) : Memory D i n' w' where
  lt := h.lt
  disk := hd
  config := hc.trans h.config
  candidate hcand := by
    obtain ⟨h1, h2⟩ := h.candidate (hr ▸ hcand)
    rw [hvf, ht, hv]
    exact ⟨h1, hs h2⟩

theorem Stands.congr {N : ℕ} {w w' : World} {t v : ℕ} (hv : ∀ c, Voted w' i t c ↔ Voted w i t c)
    (hw : Won w' i t ↔ Won w i t) (hh : w'.handled = w.handled) (hsent : w.sent <+: w'.sent)
    (h : Stands N w i t v) : Stands N w' i t v := by
  obtain ⟨S, hS, hiS, hcount, hgrants⟩ := h.count
  refine ⟨(hv i).mpr h.voted, fun c hc => h.own c ((hv c).mp hc), fun hwon => h.not_won (hw.mp hwon),
    S, hS, hiS, hcount, fun j hj => ?_⟩
  obtain ⟨k, hk, q, hq, hg⟩ := hgrants j hj
  obtain ⟨s, hs⟩ := hsent
  refine ⟨k, hh ▸ hk, q, ?_, hg⟩
  rw [← hs, List.getElem?_append_left (List.getElem?_eq_some_iff.mp hq).1, hq]

/-- Quiet code leaves the election in order. -/
theorem ok_quiet (h : (logic D B).Ok i p n) (hq : Node.Quiet n n') : (logic D B).Ok i p n' := by
  induction hq with
  | refl => exact h
  | tail _ hs ih =>
      cases hs with
      | mem hs hd hc hr hv =>
          exact ih.mem hs fun w _ _ _ hm =>
            hm.quiet (hd ▸ hm.disk) hc hr hv (by rw [hd]) (by rw [hd]) id
      | @put d event ht hv he =>
          refine ih.effect rfl (fun _ _ _ => trivial) fun w _ _ hgood hm _ => ?_
          have hd : Tally D.numNodes B { w with disk := Function.update w.disk i d } := by
            refine Tally.store hgood (by rw [hm.disk, ht]) ?_ ?_ fun c hc => ?_
            · rw [ht, ← hm.disk]
              exact hgood.term_lt i
            · rw [hv, ← hm.disk]
              exact hgood.votedFor_le i
            · rw [hv, ← hm.disk]
              exact hgood.voted_cur hc (by rw [hm.disk, ht])
          cases event with
          | none =>
              exact ⟨(), trivial, hd, hm.quiet (by simp [World.perform, Node.put]) rfl rfl rfl ht hv
                (Stands.congr (fun _ => Iff.rfl) Iff.rfl rfl List.prefix_rfl)⟩
          | some e =>
              obtain ⟨hve, hwe, -⟩ := record_quiet (i := i)
                (w := { w with disk := Function.update w.disk i d }) (he e rfl)
              exact ⟨(), trivial, hd.record (he e rfl),
                hm.quiet (by simp [World.perform, Node.put]) rfl rfl rfl ht hv
                  (Stands.congr (fun c => hve i _ c) (hwe i _) rfl List.prefix_rfl)⟩
      | @send dst rpc ht he =>
          refine ih.effect rfl (fun w _ hm => hm.id_eq) fun w _ _ hgood hm _ => ?_
          refine ⟨(), trivial, Tally.send_quiet hgood ?_ ?_ he, hm.quiet hm.disk rfl rfl rfl rfl rfl
            (Stands.congr (fun _ => Iff.rfl) Iff.rfl rfl (List.prefix_append _ _))⟩
          · exact hm.id_eq.trans_lt hm.lt
          · refine ht.trans_lt ?_
            rw [← hm.disk]
            exact hgood.term_lt i
      | @note event he =>
          refine ih.effect rfl (fun _ _ _ => trivial) fun w _ _ hgood hm _ => ?_
          obtain ⟨hve, hwe, -⟩ := record_quiet (i := i) (w := w) he
          exact ⟨(), trivial, Tally.record hgood he, hm.quiet hm.disk rfl rfl rfl rfl rfl
            (Stands.congr (fun c => hve i _ c) (hwe i _) rfl List.prefix_rfl)⟩
      | exit =>
          refine ih.effect rfl (fun _ _ _ => trivial) fun w _ _ hgood hm _ => ?_
          exact ⟨(), trivial, hgood, hm.quiet hm.disk rfl rfl rfl rfl rfl id⟩

/-! ### Becoming a follower -/

/-- What no effect other than a packet of `i` can destroy. -/
structure Calm (i : ℕ) (P : World → Prop) : Prop where
  interf : ∀ {w w'}, Interf i w w' → P w → P w'
  store : ∀ {w d}, P w → P { w with disk := Function.update w.disk i d }
  record : ∀ {w e}, P w → P (w.record i e)

theorem Calm.stable {P : World → Prop} (h : Calm i P) :
    Stable ((logic D B).setting i) fun q => P q.1 :=
  fun _ _ hr hP => h.interf hr.1 hP

theorem Calm.true : Calm i fun _ => True := ⟨fun _ _ => trivial, fun _ => trivial, fun _ => trivial⟩

/-- All votes of node `i` in term `t` were cast aside. -/
def AllAside (i t : ℕ) (w : World) : Prop := ∀ c, Voted w i t c → Aside w i t c

theorem AllAside.stable {t : ℕ} :
    Stable ((logic D B).setting i) fun q => AllAside i t q.1 :=
  fun _ _ hr h c hc => (h c (hc.own hr.1)).mono (Won.own hr.1) (StoodDown.mono hr.1)

/-- The term is new to the node, or the node is a candidate of it and may stand down. -/
def MayFollow (B : Prop) (n : Node Disk) (t : ℕ) : Prop :=
  n.store.currentTerm < t ∨ t = n.store.currentTerm ∧ n.role = .candidate ∧ B

/-- The three effects of `become_follower`. -/
theorem becomeFollower_ok {P : World → Prop} (hP : Calm i P) {env : Env} {t l : ℕ}
    (h : (logic D B).OkWith (fun q => P q.1) i p n) (hlt : t < 2 ^ 31) (hmay : MayFollow (B i) n t) :
    (logic D B).OkWith (fun q => P q.1) i p (n.becomeFollower env t l) := by
  have ht : u32 t = t := u32_of_nat (by omega)
  let n₁ := { n.note (.becameFollower t) with role := Role.follower }
  let n₂ := n₁.set .currentTerm t
  let n₃ := n₂.set .votedFor pfNoVote
  have hdisk : (Storage.set .currentTerm t n.store).2 = { n.store with currentTerm := t } := by
    rw [Disk.set_currentTerm, ht]
  have hnovote : u32 pfNoVote = pfNoVote := u32_of_nat (by decide)
  have h₁ : (logic D B).OkWith (fun q => P q.1 ∧ AllAside i t q.1) i p n₁ := by
    refine h.effect hP.stable rfl (fun _ _ _ => trivial) fun w _ _ hgood hm hPw _ => ?_
    refine ⟨(), trivial, Tally.becameFollower hgood fun hcur => ?_, ⟨hm.lt, hm.disk, hm.config, fun h => by cases h⟩,
      hP.record hPw, fun c hc => ?_⟩
    · rcases hmay with hgt | ⟨-, -, hB⟩
      · rw [hm.disk] at hcur
        omega
      · exact hB
    · replace hc : Voted w i t c := (voted_record.mp hc).resolve_right fun h => by cases h.2
      rcases hmay with hgt | ⟨rfl, hcand, -⟩
      · have := (hgood.voted_le hc).1
        rw [hm.disk] at this
        omega
      · obtain ⟨-, hstands⟩ := hm.candidate hcand
        exact ⟨hstands.own c hc,
          fun hw => hstands.not_won ((won_record.mp hw).resolve_right fun h => by cases h.2),
          stoodDown_record.mpr (.inr ⟨rfl, rfl, by rw [hm.disk]⟩)⟩
  have h₂ : (logic D B).OkWith (fun q => P q.1 ∧ AllAside i t q.1) i p n₂ := by
    refine h₁.effect (hP.stable.and AllAside.stable) rfl (fun _ _ _ => trivial)
      fun w _ _ hgood hm hPw _ => ?_
    refine ⟨(), trivial, Tally.store hgood ?_ ?_ ?_ fun c hc => .inr ?_, ⟨hm.lt, by
      simp [World.perform, n₂, Node.set, Node.put], hm.config, fun h => by cases h⟩, hP.store hPw.1, hPw.2⟩
    all_goals rw [show (Storage.set .currentTerm t n₁.store).2 = _ from hdisk] at *
    · rw [hm.disk]
      rcases hmay with hgt | ⟨rfl, -⟩
      · exact hgt.le
      · exact le_rfl
    · exact hlt
    · show n.store.votedFor ≤ _
      have := hgood.votedFor_le i
      rwa [hm.disk] at this
    · exact hPw.2 c hc
  have h₃ : (logic D B).OkWith (fun q => P q.1) i p n₃ := by
    refine h₂.effect (hP.stable.and AllAside.stable) rfl (fun _ _ _ => trivial)
      fun w _ _ hgood hm hPw _ => ?_
    have hterm : n₂.store.currentTerm = t := congrArg Disk.currentTerm hdisk
    refine ⟨(), trivial, Tally.store hgood ?_ ?_ ?_ fun c hc => .inr ?_, ⟨hm.lt, by
      simp [World.perform, n₃, Node.set, Node.put], hm.config, fun h => by cases h⟩, hP.store hPw.1⟩
    all_goals rw [Disk.set_votedFor] at *
    · rw [hm.disk]
    · exact hterm.trans_lt hlt
    · exact hnovote.le
    · have hc' : Voted w i t c := hterm ▸ hc
      have := hPw.2 c hc'
      rw [hterm]
      exact this
  exact h₃.mem rfl fun w _ _ _ hm _ => ⟨hm.lt, hm.disk, hm.config, fun h => by cases h⟩

/-- No packet of a kind that only `i` sends was sent. -/
theorem Calm.none_sent {F : Pkt → Prop} (hF : ∀ x, F x → x.src = i) :
    Calm i fun w => ∀ x ∈ w.sent, ¬F x where
  interf hi h x hx hf := by
    obtain ⟨m, hm⟩ := List.mem_iff_getElem?.mp hx
    exact h x (List.mem_of_getElem? (hi.sent_own hm (hF x hf))) hf
  store h := h
  record h := h

/-! ### Granting a vote -/

/-- `c` asked `i` for its vote in term `t` and has not been told of one. -/
structure Unanswered (i c t : ℕ) (w : World) : Prop where
  none_yet : ∀ q ∈ w.sent, ¬Grants i c t q
  asked : ∃ k ∈ w.handled, ∃ q, w.sent[k]? = some q ∧ Asks c i t q

theorem Unanswered.calm {c t : ℕ} : Calm i (Unanswered i c t) where
  interf hi h := by
    obtain ⟨k, hk, q, hq, ha⟩ := h.asked
    exact ⟨(Calm.none_sent fun _ hg => hg.1).interf hi h.none_yet, k, hi.handled hk, q,
      hi.sent_eq hq, ha⟩
  store h := ⟨h.none_yet, h.asked⟩
  record h := ⟨h.none_yet, h.asked⟩

/-- Answering a candidate whose term the node is in. -/
theorem decideVote_ok {env : Env} {t : ℕ} {req : RequestVoteReq}
    (h : (logic D B).OkWith (fun q => Unanswered i req.candidateId t q.1) i p n)
    (ht : n.store.currentTerm = t) (hc : req.candidateId < D.numNodes) (hci : req.candidateId ≠ i) :
    (logic D B).Ok i p (n.decideVote env t req) := by
  unfold Node.decideVote
  generalize hv : n.get .votedFor = v
  dsimp only
  split
  · exact h.ok
  split
  · refine ok_quiet h.ok (Node.QuietStep.send ?_ ?_).quiet
    · exact ht.ge
    · simp [Rpc.Electoral]
  · rename_i hneg hgrant
    rw [Node.get_votedFor] at hv
    -- the vote that is held is the candidate's or nobody's
    have hvote : ∀ w, Tally D.numNodes B w → Memory D i n w →
        n.store.votedFor = req.candidateId ∨ n.store.votedFor = pfNoVote := by
      intro w hgood hm
      have hle := hgood.votedFor_le i
      rw [hm.disk] at hle
      have hlt : pfNoVote < 2 ^ 31 := by decide
      rw [i32_of_nat (by omega)] at hv
      rw [← hv, u32_of_nat (by omega)] at hgrant
      by_contra hne
      push Not at hne
      exact hgrant (.inl ⟨by exact_mod_cast hne.2, hne.1⟩)
    have hfits := D.fits
    have hcu : u32 req.candidateId = req.candidateId := by
      have hlt : pfNoVote < 2 ^ 31 := by decide
      exact u32_of_nat (by omega)
    let d : Disk := { n.store with votedFor := req.candidateId }
    have hd : (Storage.set .votedFor req.candidateId n.store).2 = d := by
      rw [Disk.set_votedFor, hcu]
    let n₁ := n.set .votedFor req.candidateId (some (.vote t req.candidateId))
    -- a candidate holds its own vote
    have hnot : ∀ w, Tally D.numNodes B w → Memory D i n w → n.role ≠ .candidate := by
      intro w hgood hm hcand
      have hself := (hm.candidate hcand).1
      have hlt := hm.lt
      rcases hvote w hgood hm with hv | hv
      · exact hci (hv.symm.trans hself)
      · omega
    have h₁ : (logic D B).OkWith (fun q => Unanswered i req.candidateId t q.1 ∧
        Voted q.1 i t req.candidateId) i p n₁ := by
      refine h.effect Unanswered.calm.stable rfl (fun _ _ _ => trivial)
        fun w _ _ hgood hm hun _ => ?_
      rw [hd]
      have hstored : Tally D.numNodes B { w with disk := Function.update w.disk i d } := by
        refine Tally.store hgood (by rw [hm.disk]) ?_ ?_ fun c hvc => ?_
        · rw [show d.currentTerm = (w.disk i).currentTerm by rw [hm.disk]]
          exact hgood.term_lt i
        · show req.candidateId ≤ pfNoVote
          omega
        · -- an older vote of the term stays only if it was for the same candidate
          refine (hgood.voted_cur hvc (by rw [hm.disk])).imp_left fun hvc' => ?_
          have hcN := (hgood.voted_le hvc).2.2
          rw [hm.disk] at hvc'
          rcases hvote w hgood hm with hv | hv
          · exact hv.symm.trans hvc'
          · omega
      refine ⟨(), trivial, hstored.vote hm.lt hc (by simpa [d] using ht) (by simp [d]),
        ⟨hm.lt, ?_, hm.config, fun hr => absurd hr (hnot w hgood hm)⟩, Unanswered.calm.record (Unanswered.calm.store hun),
        voted_record.mpr (.inr ⟨rfl, rfl⟩)⟩
      simp [World.perform, n₁, Node.set, Node.put, hd]
    refine h₁.effect (Unanswered.calm.stable.and ?_) rfl (fun _ _ hm => hm.id_eq)
      fun w _ _ hgood hm hun _ => ?_
    · exact fun _ _ hr hv => hv.mono hr.1
    · have hid : n.config.id = i := hm.id_eq
      refine ⟨(), trivial, Tally.send (p := ⟨req.candidateId, n.config.id, .requestVoteRes ⟨t, 1⟩⟩)
          hgood (hid.trans_lt hm.lt) ?_ (fun _ h => by cases h) fun {s} hg => ?_,
        hm.quiet hm.disk rfl rfl rfl rfl rfl
          (Stands.congr (fun _ => Iff.rfl) Iff.rfl rfl (List.prefix_append _ _)), trivial⟩
      · show t < _
        have hterm := hgood.term_lt i
        rw [hm.disk] at hterm
        exact ht.symm.trans_lt hterm
      · obtain ⟨-, -, res, hres, rfl, -⟩ := hg
        obtain rfl := Rpc.requestVoteRes.inj hres
        show Voted w n.config.id t _ ∧ _
        rw [hid]
        exact ⟨hun.2, hun.1.asked, hun.1.none_yet⟩

/-! ### Standing for election -/

/-- The requests of term `t` have not gone to `k` and the nodes after it. -/
def NotAsked (i t k : ℕ) (w : World) : Prop := ∀ x ∈ w.sent, ¬∃ j, k ≤ j ∧ Asks i j t x

theorem NotAsked.calm {t k : ℕ} : Calm i (NotAsked i t k) :=
  Calm.none_sent fun _ ⟨_, _, ha⟩ => ha.1

/-- The loop of `broadcast_request_vote`. -/
theorem broadcastRequestVote_ok {t : ℕ}
    (h : (logic D B).OkWith (fun q => NotAsked i t 0 q.1) i p n) (hid : n.config.id = i)
    (ht : n.store.currentTerm = t) (hlt : t < 2 ^ 31) :
    (logic D B).Ok i p n.broadcastRequestVote := by
  unfold Node.broadcastRequestVote
  generalize n.logLength = logLen
  dsimp only
  split
  · exact h.ok
  · rw [Node.get_currentTerm, u32_i32, ht, u32_of_nat (by omega)]
    generalize hreq : RequestVoteReq.mk t n.config.id _ _ = req
    have hreq' : req.term = t ∧ req.candidateId = i := by
      subst hreq
      exact ⟨rfl, hid⟩
    refine Logic.OkWith.ok (P := fun q => NotAsked i t n.config.numNodes q.1) (Node.forOthers_induct
      (motive := fun k m => (logic D B).OkWith (fun q => NotAsked i t k q.1) i p m ∧
        m = { n with script := m.script }) n ⟨h, rfl⟩ fun k m _ ⟨hm, heq⟩ => ?_).1
    have hmid : m.config.id = i := by
      rw [heq]
      exact hid
    split
    · exact ⟨hm.mono fun q _ hq x hx ⟨j, hj, ha⟩ => hq x hx ⟨j, by omega, ha⟩, heq⟩
    · rename_i hki
      refine ⟨hm.effect NotAsked.calm.stable rfl (fun _ _ _ => hmid) fun w _ _ hgood hmem hw _ => ?_,
        by rw [heq]; rfl⟩
      have hmt : (w.disk i).currentTerm = t := by
        rw [hmem.disk, heq]
        exact ht
      refine ⟨(), trivial, Tally.send (p := ⟨k, m.config.id, .requestVoteReq req⟩) hgood
          (hmid.trans_lt hmem.lt) (hreq'.1.trans_lt hlt) (fun r hr => ?_) (fun hg => ?_),
        hmem.quiet hmem.disk rfl rfl rfl rfl rfl
          (Stands.congr (fun _ => Iff.rfl) Iff.rfl rfl (List.prefix_append _ _)),
        fun x hx ⟨j, hj, ha⟩ => ?_⟩
      · obtain rfl := Rpc.requestVoteReq.inj hr
        show req.term ≤ (w.disk m.config.id).currentTerm ∧ req.candidateId = m.config.id ∧
          k ≠ m.config.id ∧ _
        rw [hmid, hmt, hreq'.1]
        exact ⟨le_rfl, hreq'.2, fun hk => hki (hk.trans hid.symm),
          fun x hx ha => hw x hx ⟨k, le_rfl, ha⟩⟩
      · obtain ⟨-, -, _, hres, -⟩ := hg
        cases hres
      · rcases List.mem_append.mp hx with hx | hx
        · exact hw x hx ⟨j, by omega, ha⟩
        · obtain rfl := List.mem_singleton.mp hx
          have := ha.2.1
          dsimp only at this
          omega

/-- The node `n` is `m` after changes of memory alone, and stands for election. -/
theorem startElection_ok {env : Env} {m : Node Disk} (h : (logic D B).Ok i p m)
    (hs : n.script = m.script) (hd : n.store = m.store) (hc : n.config = m.config)
    (hid : n.config.id = i) (hlt : n.store.currentTerm < 2 ^ 31)
    (hlt' : (n.startElection env).store.currentTerm < 2 ^ 31) :
    (logic D B).Ok i p (n.startElection env) := by
  rw [Node.startElection_currentTerm env n hlt] at hlt'
  rw [Node.startElection_eq env n hlt]
  generalize hT : n.store.currentTerm + 1 = T at hlt' ⊢
  have hTu : u32 T = T := u32_of_nat (by omega)
  let n₁ := { n.set .currentTerm T with role := Role.follower }
  let n₂ := { (n.set .currentTerm T).set .votedFor n.config.id (some (.vote T n.config.id)) with
    votesReceived := 1 }
  let d₁ : Disk := { n.store with currentTerm := T }
  have hd₁ : (Storage.set .currentTerm T n.store).2 = d₁ := by rw [Disk.set_currentTerm, hTu]
  -- nothing has happened in the new term
  have h₀ : (logic D B).OkWith (fun q => NotAsked i T 0 q.1 ∧ (∀ c, ¬Voted q.1 i T c) ∧
      ¬Won q.1 i T) i p m := by
    refine h.mono fun q hq _ => ?_
    obtain ⟨-, hgood, hmem⟩ := hq
    have hT' : (q.1.disk i).currentTerm < T := by
      rw [hmem.disk, ← hd]
      omega
    refine ⟨fun x hx hask => ?_, fun c hv => ?_, fun hw => ?_⟩
    · obtain ⟨j, -, rfl, -, req, hreq, ht⟩ := hask
      have := (hgood.request hx hreq).1
      omega
    · have := (hgood.voted_le hv).1
      omega
    · have := (hgood.won hw).1
      omega
  have hstable : Stable ((logic D B).setting i) fun q => NotAsked i T 0 q.1 ∧
      (∀ c, ¬Voted q.1 i T c) ∧ ¬Won q.1 i T :=
    fun _ _ hrely hq => ⟨NotAsked.calm.interf hrely.1 hq.1, fun c hv => hq.2.1 c (hv.own hrely.1),
      fun hw => hq.2.2 (hw.own hrely.1)⟩
  have h₁ : (logic D B).OkWith (fun q => NotAsked i T 0 q.1 ∧ (∀ c, ¬Voted q.1 i T c) ∧
      ¬Won q.1 i T) i p n₁ := by
    refine h₀.effect hstable (congrArg (· ++ [_]) hs) (fun _ _ _ => trivial)
      fun w _ _ hgood hm hw _ => ?_
    rw [hd₁]
    refine ⟨(), trivial, Tally.store hgood ?_ hlt' ?_ fun c hv => absurd hv (hw.2.1 c),
      ⟨hm.lt, ?_, hc.trans hm.config, fun h => by cases h⟩, hw⟩
    · rw [hm.disk, ← hd]
      show n.store.currentTerm ≤ T
      omega
    · show n.store.votedFor ≤ _
      rw [hd, ← hm.disk]
      exact hgood.votedFor_le i
    · simp [World.perform, n₁, Node.set, Node.put, hd₁]
  have hfits := D.fits
  have h₂ : (logic D B).OkWith (fun q => NotAsked i T 0 q.1) i p n₂ := by
    refine h₁.effect hstable rfl (fun _ _ _ => trivial) fun w _ _ hgood hm hw _ => ?_
    obtain ⟨hasked, hnv, hnw⟩ := hw
    have hiu : u32 i = i := by
      have hlt : pfNoVote < 2 ^ 31 := by decide
      have hi := hm.lt
      exact u32_of_nat (by omega)
    let d₂ : Disk := { d₁ with votedFor := i }
    have hd₂ : (Storage.set .votedFor i (n.set .currentTerm T).store).2 = d₂ := by
      rw [Disk.set_votedFor, hiu, Node.set_store, hd₁]
    have hstored : Tally D.numNodes B { w with disk := Function.update w.disk i d₂ } := by
      refine Tally.store hgood ?_ hlt' ?_ fun c hv => absurd hv (hnv c)
      · rw [hm.disk]
        exact (congrArg Disk.currentTerm hd₁).le
      · have hi := hm.lt
        show i ≤ pfNoVote
        omega
    have hvote := hstored.vote (t := T) hm.lt hm.lt (by simp [d₂, d₁]) (by simp [d₂])
    have hd₂' : n₂.store = d₂ := by
      rw [← hd₂, ← hid]
      rfl
    rw [hid, hd₂]
    refine ⟨(), trivial, hvote, ⟨hm.lt, ?_, hm.config, fun _ => ?_⟩, hasked⟩
    · simp [World.perform, hd₂']
    · rw [hd₂']
      refine ⟨rfl, voted_record.mpr (.inr ⟨rfl, rfl⟩), fun c hv => ?_, fun hwon => ?_,
        ∅, by simp, by simp, by simp [n₂], by simp⟩
      · rcases voted_record.mp hv with hv | ⟨-, he⟩
        · exact absurd hv (hnv c)
        · exact (Event.vote.inj he).2.symm
      · exact hnw ((won_record.mp hwon).resolve_right fun h => by cases h.2)
  have h₃ : (logic D B).OkWith (fun q => NotAsked i T 0 q.1) i p (n₂.setElectionTimer env) :=
    h₂.mem rfl fun w _ _ _ hm _ => hm.quiet hm.disk rfl rfl rfl rfl rfl id
  have hterm : (n₂.setElectionTimer env).store.currentTerm = T := by
    show (Storage.set .votedFor _ (n.set .currentTerm T).store).2.currentTerm = T
    rw [Disk.set_votedFor, Node.set_store, hd₁]
  have hid' : (n₂.setElectionTimer env).config.id = i := by
    simp only [n₂, Node.setElectionTimer_config, Node.set_config]
    exact hid
  exact broadcastRequestVote_ok h₃ hid' hterm hlt'

theorem becomeCandidate_ok {env : Env} (h : (logic D B).Ok i p n) (hid : n.config.id = i)
    (hlt : n.store.currentTerm < 2 ^ 31)
    (hlt' : (n.becomeCandidate env).store.currentTerm < 2 ^ 31) :
    (logic D B).Ok i p (n.becomeCandidate env) := by
  dsimp only [Node.becomeCandidate] at hlt' ⊢
  exact startElection_ok h rfl rfl rfl hid hlt hlt'

/-! ### Winning -/

theorem becomeLeader_ok {env : Env} (h : (logic D B).Ok i p n) (hlt : n.store.currentTerm < 2 ^ 31)
    (hcand : n.role = .candidate) (hcount : n.votesReceived > n.config.numNodes / 2) :
    (logic D B).Ok i p (n.becomeLeader env) := by
  have hterm : u32 (n.get .currentTerm) = n.store.currentTerm := by
    rw [Node.get_currentTerm, u32_i32, u32_of_nat (by omega)]
  let n₁ := { n.note (.becameLeader (u32 (n.get .currentTerm))) with role := Role.leader }
  have h₁ : (logic D B).Ok i p n₁ := by
    refine h.effect rfl (fun _ _ _ => trivial) fun w _ _ hgood hm _ => ?_
    rw [hterm]
    obtain ⟨hself, hstands⟩ := hm.candidate hcand
    obtain ⟨S, hS, hiS, hv, hgrants⟩ := hstands.count
    have hN : n.config.numNodes = D.numNodes := by rw [hm.config, D.numNodes_eq]
    have hQ : Majority D.numNodes (insert i S) := by
      refine ⟨Finset.insert_subset (Finset.mem_range.mpr hm.lt) hS, ?_⟩
      rw [Finset.card_insert_of_notMem hiS, ← hv, ← hN]
      exact hcount
    refine ⟨(), trivial, Tally.becameLeader hgood (by rw [hm.disk]) (by rw [hm.disk, hself])
      hstands.own hQ fun j hj => ?_, ⟨hm.lt, hm.disk, hm.config, nofun⟩⟩
    rcases Finset.mem_insert.mp hj with rfl | hj
    · exact hstands.voted
    · obtain ⟨k, -, q, hq, hg⟩ := hgrants j hj
      exact (hgood.grant (List.mem_of_getElem? hq) hg).1
  refine ok_quiet h₁ (Node.Quiet.trans ?_ (Node.sendHeartbeats_quiet _))
  exact .mem rfl rfl rfl rfl rfl

/-- One more vote for a candidate: the packet `k` that it is handling. -/
theorem Stands.counted {w : World} {t v k j : ℕ} {q : Pkt} (hgood : Tally D.numNodes B w)
    (h : Stands D.numNodes w i t v) (hk : w.sent[k]? = some q) (hnew : k ∉ w.handled)
    (hg : Grants j i t q) (hji : j ≠ i) : Stands D.numNodes (w.consume k) i t (v + 1) := by
  obtain ⟨S, hS, hiS, hv, hgrants⟩ := h.count
  have hjN : j < D.numNodes := hg.1 ▸ (hgood.packet_lt q (List.mem_of_getElem? hk)).1
  have hjS : j ∉ S := by
    intro hj
    obtain ⟨k', hk', q', hq', hg'⟩ := hgrants j hj
    obtain rfl := hgood.grant_one j i t k k' q q' hk hq' hg hg'
    exact hnew hk'
  refine ⟨h.voted, h.own, h.not_won, insert j S,
    Finset.insert_subset (Finset.mem_range.mpr hjN) hS, ?_, ?_, fun m hm => ?_⟩
  · simp [hiS, hji.symm]
  · rw [Finset.card_insert_of_notMem hjS, hv]
  · rcases Finset.mem_insert.mp hm with rfl | hm
    · exact ⟨k, List.mem_cons_self, q, hk, hg⟩
    · obtain ⟨k', hk', hrest⟩ := hgrants m hm
      exact ⟨k', List.mem_cons_of_mem _ hk', hrest⟩

/-! ### Handlers -/

theorem handleAppendEntriesRequest_ok {env : Env} {req : AppendEntriesReq}
    (h : (logic D B).Ok i p n) (hlt : n.store.currentTerm < 2 ^ 31) (hreq : req.term < 2 ^ 31)
    (hB : n.role = .candidate → req.term = n.store.currentTerm → B i) :
    (logic D B).Ok i p (n.handleAppendEntriesRequest env req) := by
  unfold Node.handleAppendEntriesRequest
  rw [Node.get_currentTerm, i32_of_nat (by omega), if_neg (by omega), u32_of_nat (by omega)]
  dsimp only
  split
  · refine ok_quiet h (.appendEntriesRes ?_)
    exact le_rfl
  · split
    · rename_i hnot hfollow
      have hmay : MayFollow (B i) n req.term := by
        rcases hfollow with hgt | ⟨heq, hcand⟩
        · exact .inl hgt
        · exact .inr ⟨heq, hcand, hB hcand heq⟩
      refine ok_quiet (becomeFollower_ok Calm.true h hreq hmay)
        (Node.acceptAppendEntries_quiet env _ ?_ req)
      rw [Node.becomeFollower_store env n hreq]
      dsimp only
      omega
    · refine ok_quiet h (Node.Quiet.trans ?_ (Node.acceptAppendEntries_quiet env _ le_rfl req))
      exact .mem rfl rfl rfl rfl rfl

theorem handleAppendEntriesResponse_ok {env : Env} {src : ℕ} {resp : AppendEntriesRes}
    (h : (logic D B).Ok i p n) (hlt : n.store.currentTerm < 2 ^ 31) (hresp : resp.term < 2 ^ 31) :
    (logic D B).Ok i p (n.handleAppendEntriesResponse env src resp) := by
  unfold Node.handleAppendEntriesResponse
  rw [Node.get_currentTerm, u32_i32, u32_of_nat (by omega)]
  dsimp only
  split
  · rename_i hgt
    exact becomeFollower_ok Calm.true h hresp (.inl hgt)
  · split
    · exact h
    · refine ok_quiet h ?_
      split
      · refine Node.Quiet.trans ?_ ((Node.commitLoop_quiet _ _ _).trans
          (Node.applyToStateMachine_quiet _))
        exact .mem rfl rfl rfl rfl rfl
      · split
        · exact .mem rfl rfl rfl rfl rfl
        · exact .refl n

theorem handleRequestVoteRequest_ok {env : Env} {req : RequestVoteReq}
    (h : (logic D B).OkWith (fun q => Unanswered i req.candidateId req.term q.1) i p n)
    (hlt : n.store.currentTerm < 2 ^ 31) (hreq : req.term < 2 ^ 31)
    (hc : req.candidateId < D.numNodes) (hci : req.candidateId ≠ i) {src : ℕ} :
    (logic D B).Ok i p (n.handleRequestVoteRequest env src req) := by
  unfold Node.handleRequestVoteRequest
  rw [Node.get_currentTerm, i32_of_nat (by omega), if_neg (by omega), u32_of_nat (by omega)]
  dsimp only
  split
  · refine ok_quiet h.ok (Node.QuietStep.send ?_ ?_).quiet
    · exact le_rfl
    · simp [Rpc.Electoral]
  · split
    · rename_i hgt
      refine decideVote_ok (becomeFollower_ok Unanswered.calm h hreq (.inl hgt)) ?_ hc hci
      rw [Node.becomeFollower_store env n hreq]
    · have heq : req.term = n.store.currentTerm := by omega
      exact decideVote_ok (heq ▸ h) rfl hc hci

/-- The response `k` has just been taken off the network. -/
theorem handleRequestVoteResponse_ok {env : Env} {w : World} {k src : ℕ} {q : Pkt}
    {resp : RequestVoteRes} (hgood : Tally D.numNodes B w) (hm : Memory D i n w)
    (hk : w.sent[k]? = some q) (hnew : k ∉ w.handled) (hdst : q.dst = i) (hsrc : q.src = src)
    (hrpc : q.rpc = .requestVoteRes resp) (hs : n.script = [])
    (hat : (logic D B).At i n (w.consume k, ())) :
    (logic D B).Ok i (w.consume k, ()) (n.handleRequestVoteResponse env src resp) := by
  have h : (logic D B).Ok i (w.consume k, ()) n := hat.okWith hs trivial
  have hlt : n.store.currentTerm < 2 ^ 31 := hm.disk ▸ hgood.term_lt i
  have hresp : resp.term < 2 ^ 31 := by
    have := (hgood.packet_lt q (List.mem_of_getElem? hk)).2
    rwa [hrpc] at this
  unfold Node.handleRequestVoteResponse
  rw [Node.get_currentTerm, u32_i32, u32_of_nat (by omega)]
  dsimp only
  split
  · exact h
  rename_i hcand
  push Not at hcand
  split
  · rename_i hgt
    exact becomeFollower_ok Calm.true h hresp (.inl hgt)
  split
  · exact h
  split
  · rename_i hge hle hgranted
    have hg : Grants src i n.store.currentTerm q := ⟨hsrc, hdst, resp, hrpc, by omega, hgranted⟩
    obtain ⟨hself, hstands⟩ := hm.candidate hcand
    have hji : src ≠ i := by
      rintro rfl
      obtain ⟨-, k', -, q', hq', hasks⟩ := hgood.grant (List.mem_of_getElem? hk) hg
      obtain ⟨hsrc', hdst', req, hreq, -⟩ := hasks
      exact (hgood.request (List.mem_of_getElem? hq') hreq).2.2 (hdst'.trans hsrc'.symm)
    let n₁ : Node Disk := { n with votesReceived := n.votesReceived + 1 }
    have h₁ : (logic D B).Ok i (w.consume k, ()) n₁ := by
      refine Logic.At.okWith ⟨trivial, hgood.consume k, hm.lt, hm.disk, hm.config, fun _ => ?_⟩
        hs trivial
      exact ⟨hself, hstands.counted hgood hk hnew hg hji⟩
    split
    · rename_i hcount
      exact becomeLeader_ok h₁ hlt hcand hcount
    · exact h₁
  · exact h

theorem raftHandleTimeout_ok {env : Env} (h : (logic D B).Ok i p n) (hid : n.config.id = i)
    (hlt : n.store.currentTerm < 2 ^ 31)
    (hlt' : (n.raftHandleTimeout env).store.currentTerm < 2 ^ 31) :
    (logic D B).Ok i p (n.raftHandleTimeout env) := by
  unfold Node.raftHandleTimeout at hlt' ⊢
  cases hr : n.role with
  | follower =>
      simp only [hr] at hlt' ⊢
      split
      · rename_i hcond
        rw [if_pos hcond] at hlt'
        exact becomeCandidate_ok h hid hlt hlt'
      · rename_i hcond
        rw [if_neg hcond] at hlt'
        split
        · rename_i hfail
          rw [if_pos hfail] at hlt'
          exact becomeCandidate_ok h hid hlt hlt'
        · exact ok_quiet h (.mem rfl rfl rfl rfl rfl)
  | candidate =>
      simp only [hr] at hlt' ⊢
      exact startElection_ok h rfl rfl rfl hid hlt hlt'
  | leader =>
      dsimp only
      refine ok_quiet h ?_
      have hq : Node.Quiet n ((n.setHeartbeatTimer env).sendHeartbeats) := by
        refine Node.Quiet.trans ?_ (Node.sendHeartbeats_quiet _)
        exact .mem rfl rfl rfl rfl rfl
      generalize (n.setHeartbeatTimer env).sendHeartbeats = m at hq ⊢
      have hm : Node.Quiet m { m with heartbeatCount := m.heartbeatCount + 1 } :=
        .mem rfl rfl rfl rfl rfl
      split
      · exact hq.trans (hm.trans Node.QuietStep.exit.quiet)
      · exact hq.trans hm

theorem raftHandleRpc_ok {env : Env} {w : World} {k : ℕ} {q : Pkt} (hgood : Tally D.numNodes B w)
    (hm : Memory D i n w) (hk : w.sent[k]? = some q) (hnew : k ∉ w.handled) (hdst : q.dst = i)
    (hB : ∀ req, q.rpc = .appendEntriesReq req → n.role = .candidate →
      req.term = n.store.currentTerm → B i) (hs : n.script = [])
    (hat : (logic D B).At i n (w.consume k, ())) :
    (logic D B).Ok i (w.consume k, ()) (n.raftHandleRpc env q) := by
  have h : (logic D B).Ok i (w.consume k, ()) n := hat.okWith hs trivial
  have hlt : n.store.currentTerm < 2 ^ 31 := hm.disk ▸ hgood.term_lt i
  have hq := List.mem_of_getElem? hk
  have hterm := (hgood.packet_lt q hq).2
  unfold Node.raftHandleRpc
  cases hrpc : q.rpc with
  | appendEntriesReq req =>
      rw [hrpc] at hterm
      exact handleAppendEntriesRequest_ok h hlt hterm (hB req hrpc)
  | appendEntriesRes resp =>
      rw [hrpc] at hterm
      exact handleAppendEntriesResponse_ok h hlt hterm
  | requestVoteReq req =>
      rw [hrpc] at hterm
      obtain ⟨-, hcand, hne⟩ := hgood.request hq hrpc
      have hasks : Asks req.candidateId i req.term q := ⟨hcand.symm, hdst, req, hrpc, rfl⟩
      refine handleRequestVoteRequest_ok (hat.okWith hs ⟨hgood.not_granted hk hasks hnew,
        k, List.mem_cons_self, q, hk, hasks⟩) hlt hterm ?_ ?_
      · rw [hcand]
        exact (hgood.packet_lt q hq).1
      · rw [hcand, ← hdst]
        exact hne.symm
  | requestVoteRes resp =>
      exact handleRequestVoteResponse_ok hgood hm hk hnew hdst rfl hrpc hs hat
  | procReq req => exact ok_quiet h (Node.handleProcRequest_quiet n req _)
  | procRes resp => exact h

/-! ### Every run -/

/-- The step delivers an AppendEntries request to node `i`, a candidate of its term. -/
def meetsOwnLeader (c : Cluster) (i : ℕ) : Action → Bool
  | .deliver k _ => (c.world.sent[k]?).any fun pkt =>
    match pkt.rpc with
    | .appendEntriesReq req =>
      decide (pkt.dst = i ∧ (c.node i).role = .candidate ∧
        req.term = (c.node i).store.currentTerm)
    | _ => false
  | _ => false

theorem tally_init (D : Deployment) (B : ℕ → Prop) : Tally D.numNodes B (Cluster.init D).world where
  term_lt _ := by simp [Cluster.init, Disk.init]
  votedFor_le _ := le_rfl
  packet_lt p hp := by simp [Cluster.init] at hp
  voted_le hv := by simp [Voted, Cluster.init] at hv
  voted_cur hv := by simp [Voted, Cluster.init] at hv
  voted_two hv := by simp [Voted, Cluster.init] at hv
  won hw := by simp [Won, Cluster.init] at hw
  request hp := by simp [Cluster.init] at hp
  request_one c j t k := by simp [Cluster.init]
  grant hp := by simp [Cluster.init] at hp
  grant_one c j t k := by simp [Cluster.init]
  stood hs := by simp [StoodDown, Cluster.init] at hs

variable {ok : Cluster → Action → Cluster → Prop}

theorem obligations (hok : ∀ {c a c'}, ok c a c' → Cluster.StorageOk D c')
    (hB : ∀ i, B i ∨ ∀ {c a c'}, ok c a c' → meetsOwnLeader c i a = false) :
    (logic D B).Obligations D ok where
  init := ⟨(), trivial, tally_init D B, fun i hi =>
    Logic.At.okWith ⟨trivial, tally_init D B, hi, rfl, rfl, nofun⟩ rfl trivial⟩
  consume h := Tally.consume h _
  restart h hi := ⟨{ h.good with }, hi, rfl, rfl, nofun⟩
  deliver {c c' g k env pkt} hk hnew hdst hstep hc' hs hat hat' := by
    refine raftHandleRpc_ok hat.2.1 hat.2.2 hk hnew rfl (fun req hrpc hcand hterm => ?_) hs hat'
    refine (hB pkt.dst).resolve_right fun hno => ?_
    have := hno hstep
    simp [meetsOwnLeader, hk, hrpc, hcand, hterm] at this
  timeout {c c' g i env} hi hstep hc' hs hat := by
    have hlt := (hok hstep i hi).1
    rw [hc'] at hlt
    simp only [Cluster.setNode, Function.update_self] at hlt
    exact raftHandleTimeout_ok (hat.okWith hs trivial) hat.2.2.id_eq
      (hat.2.2.disk ▸ Tally.term_lt hat.2.1 i) hlt
  client {c c' g i src req} hi hstep hc' hs hat :=
    ok_quiet (hat.okWith hs trivial) (Node.handleProcRequest_quiet _ req src)

theorem tally (hok : ∀ {c a c'}, ok c a c' → Cluster.StorageOk D c')
    (hB : ∀ i, B i ∨ ∀ {c a c'}, ok c a c' → meetsOwnLeader c i a = false) {c : Cluster}
    (hc : Cluster.Run D ok c) : Tally D.numNodes B c.world :=
  let ⟨_, h⟩ := Logic.run (obligations hok hB) (fun _ => trivial) hc
  h.good

/-- Election safety: no two nodes become the leader of the same term. -/
theorem election_safety {D : Deployment} {c : Cluster} (hc : Cluster.Reachable D c) {i j t : ℕ}
    (hi : Won c.world i t) (hj : Won c.world j t) : i = j :=
  (tally (B := fun _ => True) (fun h => h) (fun _ => .inl trivial) hc).won_unique hi hj

/-- A cluster of three elects node 0: the only winner of the term. -/
theorem election_safety_three : ∃ c, Cluster.Reachable (.plain 3 (by decide)) c ∧
    Won c.world 0 1 ∧ ∀ j, Won c.world j 1 → j = 0 := by
  have hrun : ∃ c, Cluster.Reachable (.plain 3 (by decide)) c ∧ Won c.world 0 1 :=
    Cluster.Run.exists_of_actions (P := fun c => Won c.world 0 1)
      ([.timeout 0 ⟨0, 0⟩] ++ Action.execs 0 4 ++ [.deliver 0 ⟨0, 0⟩] ++ Action.execs 1 5 ++
        [.deliver 2 ⟨0, 0⟩] ++ Action.execs 0 3)
      (by decide +kernel)
  obtain ⟨c, hc, hw⟩ := hrun
  exact ⟨c, hc, hw, fun j hj => election_safety hc hj hw⟩

/-! ### Voting twice -/

/-- Node 1 votes for itself and, having met the leader of its term, for node 2. -/
theorem votes_twice : ∃ c, Cluster.Reachable (.plain 5 (by decide)) c ∧
    Voted c.world 1 1 1 ∧ Voted c.world 1 1 2 :=
  Cluster.Run.exists_of_actions (D := .plain 5 (by decide))
    (P := fun c => Voted c.world 1 1 1 ∧ Voted c.world 1 1 2)
    ([.timeout 0 ⟨0, 0⟩] ++ Action.execs 0 6 ++ [.timeout 1 ⟨0, 0⟩] ++ Action.execs 1 6 ++
      [.timeout 2 ⟨0, 0⟩] ++ Action.execs 2 6 ++
      -- node 1 refuses node 0, the nodes 3 and 4 elect it
      [.deliver 0 ⟨0, 0⟩] ++ Action.execs 1 1 ++ [.deliver 2 ⟨0, 0⟩] ++ Action.execs 3 5 ++
      [.deliver 3 ⟨0, 0⟩] ++ Action.execs 4 5 ++ [.deliver 13 ⟨0, 0⟩, .deliver 14 ⟨0, 0⟩] ++
      Action.execs 0 5 ++
      -- node 1 meets the leader, and then node 2's request
      [.deliver 15 ⟨0, 0⟩] ++ Action.execs 1 4 ++ [.deliver 9 ⟨0, 0⟩] ++ Action.execs 1 2)
    (by decide +kernel)

/-- A node votes for one candidate a term at most, in every run in which it never meets
the leader of a term it is a candidate of, whatever the others meet. -/
theorem one_vote_per_term {D : Deployment} {c : Cluster} {i : ℕ}
    (hc : Cluster.Run D (fun c a c' => Cluster.StorageOk D c' ∧ meetsOwnLeader c i a = false) c)
    {t c₁ c₂ : ℕ} (h₁ : Voted c.world i t c₁) (h₂ : Voted c.world i t c₂) : c₁ = c₂ := by
  have hB : ∀ j, j ≠ i ∨ ∀ {c a c'}, Cluster.StorageOk D c' ∧ meetsOwnLeader c i a = false →
      meetsOwnLeader c j a = false := by
    intro j
    rcases ne_or_eq j i with hne | rfl
    · exact .inl hne
    · exact .inr fun h => h.2
  exact (tally (B := (· ≠ i)) (fun h => h.1) hB hc).voted_unique (not_not.mpr rfl) h₁ h₂

/-- Node 1 votes for node 0 and for nobody else in that term. -/
theorem one_vote_per_term_three : ∃ c, Cluster.Reachable (.plain 3 (by decide)) c ∧
    Voted c.world 1 1 0 ∧ ∀ v, Voted c.world 1 1 v → v = 0 := by
  have hrun : ∃ c, Cluster.Run (.plain 3 (by decide)) (fun c a c' =>
      Cluster.StorageOk (.plain 3 (by decide)) c' ∧ meetsOwnLeader c 1 a = false) c ∧
      Voted c.world 1 1 0 :=
    Cluster.Run.exists_of_actions (P := fun c => Voted c.world 1 1 0)
      ([.timeout 0 ⟨0, 0⟩] ++ Action.execs 0 4 ++ [.deliver 0 ⟨0, 0⟩] ++ Action.execs 1 5)
      (by decide +kernel)
  obtain ⟨c, hc, hv⟩ := hrun
  exact ⟨c, hc.mono fun _ _ _ h => h.1, hv, fun v hv' => one_vote_per_term hc hv' hv⟩

end GeoRaft.Election
