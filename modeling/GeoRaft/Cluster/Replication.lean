import GeoRaft.Library.LogSteps
import GeoRaft.Node.InRange
import GeoRaft.Cluster.Votes
import GeoRaft.Cluster.Logic

/-!
The cluster as a replicated log.

The abstract replicated log runs beside the cluster: `Good` says what state of
it belongs to a world and what the packets in flight and the history mean there,
`Memory` what the memory of a node means. Everything a packet says is a fact
that stays true, so packets can be lost, delayed and reordered at will.
-/

namespace GeoRaft.Replication

open ReplicatedLog Quorum Election Word

/-- The replicated log of a cluster of `N` nodes. -/
def scheme (N : ℕ) : Scheme ℕ LogEntry where
  termOf := LogEntry.term
  Quorum := Majority N
  meet := Majority.inter

abbrev Ghost := State ℕ LogEntry

theorem lastTerm_take (N : ℕ) (l : List LogEntry) (k : ℕ) :
    (scheme N).lastTerm (l.take k) = termBefore l k := rfl

/-- The first `m` entries of `l` are committed, in a term up to `t`. -/
def Held (N : ℕ) (g : Ghost) (t m : ℕ) (l : List LogEntry) : Prop :=
  m = 0 ∨ ∃ T p, Committed (scheme N) g T p ∧ T ≤ t ∧ m ≤ p.length ∧ p.take m <+: l

/-! ### What packets say -/

structure AppendOk (N : ℕ) (g : Ghost) (src dst : ℕ) (req : AppendEntriesReq) : Prop where
  owner : g.owner req.term = some src
  leaderId : req.leaderId = src
  ne : dst ≠ src
  body : ∃ k : ℕ, req.prevLogIdx = u32 ((k : ℤ) - 1) ∧ k + req.entries.length < 2 ^ 31 ∧
    k ≤ (g.lead req.term).length ∧ req.entries <+: (g.lead req.term).drop k ∧
    req.prevLogTerm = termBefore (g.lead req.term) k
  commit : ∃ m : ℕ, req.leaderCommit + 1 = m ∧ Held N g req.term m (g.lead req.term)

/-- A success is either of a term that its receiver has left, or it acknowledges
a prefix of the log of the owner of its term. -/
def AckOk (g : Ghost) (src dst : ℕ) (res : AppendEntriesRes) : Prop :=
  res.success ≠ 0 → (∃ t, res.term < t ∧ g.owner t = some dst) ∨
    src ≠ dst ∧ ∃ q, (res.term, src, q) ∈ g.acks ∧ i32 res.newMatchIndex + 1 = q.length

def AskOk (N : ℕ) (g : Ghost) (src : ℕ) (req : RequestVoteReq) : Prop :=
  ∃ l, g.claim req.term src = some l ∧ l.length < 2 ^ 31 ∧
    req.lastLogIdx = u32 ((l.length : ℤ) - 1) ∧ req.lastLogTerm = (scheme N).lastTerm l

def PacketOk (N : ℕ) (g : Ghost) (p : Pkt) : Prop :=
  match p.rpc with
  | .appendEntriesReq req => AppendOk N g p.src p.dst req
  | .appendEntriesRes res => AckOk g p.src p.dst res
  | .requestVoteReq req => AskOk N g p.src req
  | _ => True

/-! ### What the history says -/

def RecordOk (N : ℕ) (g : Ghost) (r : Record) : Prop :=
  match r.event with
  | .becameFollower _ => True
  | .vote t c => ∃ l, (t, r.node, c, l) ∈ g.ballots
  | .becameLeader t => g.owner t ≠ none ∧ g.elect t = r.disk.log
  | .accept k e => g.owner e.term ≠ none ∧ (g.lead e.term)[k]? = some e
  | .commit t idx => ∃ m : ℕ, idx + 1 = m ∧ m ≤ r.disk.log.length ∧
      Committed (scheme N) g t (r.disk.log.take m)
  | .apply idx e => ∃ k : ℕ, idx = k ∧ ∃ T p, Committed (scheme N) g T p ∧ p[k]? = some e
  | .reply _ _ => True

/-- Some record before position `a` of the history accepted `e` at `k`. -/
def AcceptedBefore (w : World) (a k : ℕ) (e : LogEntry) : Prop :=
  ∃ b r, b < a ∧ w.history[b]? = some r ∧ r.event = .accept k e

/-- The index that the record says process `i` applied in its incarnation `inc`. -/
def appliedBy (i inc : ℕ) (r : Record) : Option ℤ :=
  match r.event with
  | .apply idx _ => if r.node = i ∧ r.inc = inc then some idx else none
  | _ => none

/-- The indexes process `i` applied in its incarnation `inc`, in order. -/
def applyOrder (w : World) (i inc : ℕ) : List ℤ := w.history.filterMap (appliedBy i inc)

/-- `0, 1, …, m - 1`. -/
def upTo (m : ℕ) : List ℤ := (List.range m).map fun k : ℕ => (k : ℤ)

/-- What the order of the records says. -/
structure Chronicle (N : ℕ) (w : World) (g : Ghost) : Prop where
  inc_le : ∀ r ∈ w.history, r.inc ≤ w.inc r.node
  applied : ∀ i inc, ∃ m, applyOrder w i inc = upTo m
  accept_one : ∀ {a b : ℕ} {r r' : Record} {k : ℕ} {e e' : LogEntry}, w.history[a]? = some r → w.history[b]? = some r' →
    r.event = .accept k e → r'.event = .accept k e' → e.term = e'.term → a = b
  created : ∀ {t k : ℕ} {e : LogEntry}, g.owner t ≠ none → (g.lead t)[k]? = some e → e.term = t →
    AcceptedBefore w w.history.length k e
  replied : ∀ {a : ℕ} {r : Record} {idx : ℤ} {e : LogEntry}, w.history[a]? = some r → r.event = .reply idx e →
    ∃ (k T : ℕ) (p : List LogEntry), idx = k ∧ Committed (scheme N) g T p ∧
      T ≤ r.disk.currentTerm ∧ p[k]? = some e ∧ ∀ j x, p[j]? = some x → AcceptedBefore w a j x

structure Good (N : ℕ) (w : World) (g : Ghost) : Prop where
  inv : Inv (scheme N) g
  term : ∀ i, g.term i = (w.disk i).currentTerm
  log : ∀ i, g.log i = (w.disk i).log
  log_lt : ∀ i, (w.disk i).log.length < 2 ^ 31
  owner : ∀ {t i}, g.owner t = some i ↔ Won w i t
  owner_pos : ∀ {t}, g.owner t ≠ none → 1 ≤ t
  packets : ∀ p ∈ w.sent, PacketOk N g p
  records : ∀ r ∈ w.history, RecordOk N g r
  chronicle : Chronicle N w g

/-! ### What a node knows -/

structure Leads (i : ℕ) (n : Node Disk) (g : Ghost) : Prop where
  owner : g.owner n.store.currentTerm = some i
  next : ∀ x ∈ n.nextIndex, x ≤ n.store.log.length
  acked : ∀ {j : ℕ} {m : ℤ}, n.matchIndex[j]? = some m → 0 ≤ m →
    j ≠ i ∧ ∃ q : List LogEntry, (n.store.currentTerm, j, q) ∈ g.acks ∧ m + 1 = q.length

structure Memory (D : Deployment) (i : ℕ) (n : Node Disk) (w : World) (g : Ghost) : Prop where
  lt : i < D.numNodes
  disk : w.disk i = n.store
  config : n.config = D.config i
  commit : ∃ m : ℕ, n.commitIndex + 1 = m ∧
    Held D.numNodes g n.store.currentTerm m n.store.log
  applied : ∃ m : ℕ, n.lastApplied + 1 = m ∧ applyOrder w i (w.inc i) = upTo m
  candidate : n.role = .candidate → 1 ≤ n.store.currentTerm ∧
    g.claim n.store.currentTerm i = some n.store.log ∧ g.owner n.store.currentTerm ≠ some i
  leader : n.role = .leader → Leads i n g

/-! ### Facts that stay true -/

variable {N : ℕ} {g g' : Ghost}

theorem Held.mono (hg : Grows g g') {t t' m : ℕ} {l l' : List LogEntry} (ht : t ≤ t')
    (hl : l <+: l') (h : Held N g t m l) : Held N g' t' m l' := by
  rcases h with h | ⟨T, p, hc, hT, hm, hp⟩
  · exact .inl h
  · exact .inr ⟨T, p, hc.mono hg, hT.trans ht, hm, hp.trans hl⟩

theorem Held.le_length {t m : ℕ} {l : List LogEntry} (h : Held N g t m l) : m ≤ l.length := by
  rcases h with rfl | ⟨T, p, -, -, hm, hp⟩
  · exact Nat.zero_le _
  · have := hp.length_le
    simp only [List.length_take] at this
    omega

theorem termBefore_isPrefix {l l' : List LogEntry} (h : l <+: l') {k : ℕ} (hk : k ≤ l.length) :
    termBefore l' k = termBefore l k := by
  obtain ⟨s, rfl⟩ := h
  rw [termBefore, termBefore, List.take_append_of_le_length hk]

theorem AppendOk.mono (hg : Grows g g') {src dst : ℕ} {req : AppendEntriesReq}
    (h : AppendOk N g src dst req) : AppendOk N g' src dst req := by
  have hlead := hg.lead (t := req.term) (by simp [h.owner])
  obtain ⟨k, hk, hlt, hle, hent, hterm⟩ := h.body
  obtain ⟨m, hm, hheld⟩ := h.commit
  refine ⟨hg.owner h.owner, h.leaderId, h.ne, ⟨k, hk, hlt, hle.trans hlead.length_le,
    hent.trans (hlead.drop k), ?_⟩, m, hm, hheld.mono hg le_rfl hlead⟩
  rw [hterm, termBefore_isPrefix hlead hle]

theorem PacketOk.mono (hg : Grows g g') {p : Pkt} (h : PacketOk N g p) : PacketOk N g' p := by
  unfold PacketOk at h ⊢
  cases hrpc : p.rpc with
  | appendEntriesReq req =>
      simp only [hrpc] at h ⊢
      exact h.mono hg
  | appendEntriesRes res =>
      simp only [hrpc] at h ⊢
      intro hs
      rcases h hs with ⟨t, ht, ho⟩ | ⟨hne, q, hq, hlen⟩
      · exact .inl ⟨t, ht, hg.owner ho⟩
      · exact .inr ⟨hne, q, hg.acks hq, hlen⟩
  | requestVoteReq req =>
      simp only [hrpc] at h ⊢
      obtain ⟨l, hl, hrest⟩ := h
      exact ⟨l, hg.claim hl, hrest⟩
  | requestVoteRes res => trivial
  | procReq req => trivial
  | procRes res => trivial

theorem RecordOk.mono (hg : Grows g g') {r : Record} (h : RecordOk N g r) : RecordOk N g' r := by
  unfold RecordOk at h ⊢
  cases hev : r.event with
  | becameFollower t => trivial
  | vote t c =>
      simp only [hev] at h ⊢
      obtain ⟨l, hl⟩ := h
      exact ⟨l, hg.ballots hl⟩
  | becameLeader t =>
      simp only [hev] at h ⊢
      exact ⟨hg.owner_ne h.1, (hg.elect h.1).trans h.2⟩
  | accept k e =>
      simp only [hev] at h ⊢
      refine ⟨hg.owner_ne h.1, ?_⟩
      obtain ⟨s, hs⟩ := hg.lead h.1
      rw [← hs, List.getElem?_append_left (List.getElem?_eq_some_iff.mp h.2).1, h.2]
  | commit t idx =>
      simp only [hev] at h ⊢
      obtain ⟨m, hm, hle, hc⟩ := h
      exact ⟨m, hm, hle, hc.mono hg⟩
  | apply idx e =>
      simp only [hev] at h ⊢
      obtain ⟨k, hk, T, p, hc, hp⟩ := h
      exact ⟨k, hk, T, p, hc.mono hg, hp⟩
  | reply idx e => trivial

theorem applyOrder_interf {i : ℕ} {w w' : World} (h : Interf i w w') (inc : ℕ) :
    applyOrder w' i inc = applyOrder w i inc := by
  obtain ⟨s, hs, hnode⟩ := h.history
  rw [applyOrder, applyOrder, hs, List.filterMap_append]
  have : s.filterMap (appliedBy i inc) = [] := by
    apply List.filterMap_eq_nil_iff.mpr
    intro r hr
    have := hnode r hr
    unfold appliedBy
    split
    · simp [this]
    · rfl
  rw [this, List.append_nil]

theorem Memory.stable {D : Deployment} {i : ℕ} {n : Node Disk} {w w' : World}
    (h : Memory D i n w g) (hi : Interf i w w') (hg : Leaves i g g') : Memory D i n w' g' where
  lt := h.lt
  disk := hi.disk.trans h.disk
  config := h.config
  commit :=
    let ⟨m, hm, hheld⟩ := h.commit
    ⟨m, hm, hheld.mono hg.toGrows le_rfl List.prefix_rfl⟩
  applied := by
    rw [hi.inc, applyOrder_interf hi]
    exact h.applied
  candidate hr := by
    obtain ⟨hpos, hc, ho⟩ := h.candidate hr
    exact ⟨hpos, by rw [hg.claim_eq, hc], fun hown => ho (hg.owner_of hown)⟩
  leader hr := by
    obtain ⟨ho, hnext, hack⟩ := h.leader hr
    refine ⟨hg.owner ho, hnext, fun hj hm => ?_⟩
    obtain ⟨hne, q, hq, hlen⟩ := hack hj hm
    exact ⟨hne, q, hg.acks hq, hlen⟩

/-! ### Effects -/

variable {w w' : World} {i : ℕ}

theorem AcceptedBefore.mono {a b k : ℕ} {e : LogEntry} (hab : a ≤ b)
    (hw : w.history <+: w'.history) (h : AcceptedBefore w a k e) : AcceptedBefore w' b k e := by
  obtain ⟨c, r, hc, hr, he⟩ := h
  obtain ⟨s, hs⟩ := hw
  refine ⟨c, r, by omega, ?_, he⟩
  rw [← hs, List.getElem?_append_left (List.getElem?_eq_some_iff.mp hr).1, hr]

/-- Nothing is recorded and no leading log changes. -/
theorem Chronicle.mono (h : Chronicle N w g) (hg : Grows g g') (hw : w'.history = w.history)
    (hinc : ∀ j, w.inc j ≤ w'.inc j) (ho : g'.owner = g.owner) (hl : g'.lead = g.lead) :
    Chronicle N w' g' where
  inc_le r hr := (h.inc_le r (hw ▸ hr)).trans (hinc _)
  applied j inc := by
    unfold applyOrder
    rw [hw]
    exact h.applied j inc
  accept_one := by
    rw [hw]
    exact h.accept_one
  created := by
    rw [hw, ho, hl]
    intro t k e hne hk ht
    exact (h.created hne hk ht).mono le_rfl (by rw [hw])
  replied := by
    rw [hw]
    intro a r idx e ha hr
    obtain ⟨k, T, p, hk, hc, hT, hp, hacc⟩ := h.replied ha hr
    exact ⟨k, T, p, hk, hc.mono hg, hT, hp, fun j x hx => (hacc j x hx).mono le_rfl (by rw [hw])⟩

/-- Node `i` records `e`. -/
theorem Chronicle.record (h : Chronicle N w g) (hg : Grows g g') {e : Event}
    (hcreated : ∀ {t k x}, g'.owner t ≠ none → (g'.lead t)[k]? = some x → x.term = t →
      g.owner t ≠ none ∧ (g.lead t)[k]? = some x ∨ e = .accept k x)
    (haccept : ∀ {k x}, e = .accept k x → ∀ r ∈ w.history, ∀ y, r.event = .accept k y →
      x.term ≠ y.term)
    (happly : ∀ {idx x}, e = .apply idx x → ∃ m : ℕ, idx = m ∧ applyOrder w i (w.inc i) = upTo m)
    (hreply : ∀ {idx x}, e = .reply idx x → ∃ (k T : ℕ) (p : List LogEntry), idx = k ∧
      Committed (scheme N) g' T p ∧ T ≤ (w.disk i).currentTerm ∧ p[k]? = some x ∧
      ∀ j y, p[j]? = some y → AcceptedBefore w w.history.length j y) :
    Chronicle N (w.record i e) g' := by
  have hpre : w.history <+: (w.record i e).history := List.prefix_append _ _
  have hlen : w.history.length ≤ (w.record i e).history.length := hpre.length_le
  -- a position of the new history is an old one or the last
  have hat : ∀ {a : ℕ} {r : Record}, (w.record i e).history[a]? = some r →
      w.history[a]? = some r ∨ a = w.history.length ∧ r = ⟨i, w.inc i, e, w.disk i⟩ := by
    intro a r ha
    simp only [World.record] at ha
    rw [List.getElem?_append] at ha
    split at ha
    · exact .inl ha
    · rw [List.getElem?_singleton] at ha
      split at ha
      · exact .inr ⟨by omega, (Option.some.inj ha).symm⟩
      · cases ha
  refine ⟨fun r hr => ?_, fun j inc => ?_, ?_, ?_, ?_⟩
  · rcases List.mem_append.mp hr with hr | hr
    · exact h.inc_le r hr
    · rw [List.mem_singleton.mp hr]
      exact le_rfl
  · have happ : applyOrder (w.record i e) j inc =
        applyOrder w j inc ++ (appliedBy j inc ⟨i, w.inc i, e, w.disk i⟩).toList := by
      simp only [applyOrder, World.record, List.filterMap_append, List.append_cancel_left_eq]
      cases hby : appliedBy j inc ⟨i, w.inc i, e, w.disk i⟩ <;> simp [hby]
    rw [happ]
    cases hby : appliedBy j inc ⟨i, w.inc i, e, w.disk i⟩ with
    | none => simpa using h.applied j inc
    | some idx =>
        simp only [appliedBy] at hby
        split at hby
        · split at hby
          · rename_i hcond
            obtain ⟨rfl, rfl⟩ := hcond
            obtain rfl := Option.some.inj hby
            obtain ⟨m, hm, hupTo⟩ := happly rfl
            refine ⟨m + 1, ?_⟩
            simp [hupTo, upTo, List.range_succ, hm]
          · cases hby
        · cases hby
  · intro a b r r' k x y ha hb hr hr' hterm
    rcases hat ha with ha | ⟨rfl, rfl⟩
    · rcases hat hb with hb | ⟨rfl, rfl⟩
      · exact h.accept_one ha hb hr hr' hterm
      · exact absurd hterm.symm (haccept hr' r (List.mem_of_getElem? ha) x hr)
    · rcases hat hb with hb | ⟨hb, -⟩
      · exact absurd hterm (haccept hr r' (List.mem_of_getElem? hb) y hr')
      · exact hb.symm
  · intro t k x ho hk ht
    rcases hcreated ho hk ht with ⟨ho', hk'⟩ | rfl
    · exact (h.created ho' hk' ht).mono hlen hpre
    · refine ⟨w.history.length, _, ?_, List.getElem?_concat_length, rfl⟩
      simp [World.record]
  · intro a r idx x ha hr
    rcases hat ha with ha | ⟨rfl, rfl⟩
    · obtain ⟨k, T, p, hk, hc, hT, hp, hacc⟩ := h.replied ha hr
      exact ⟨k, T, p, hk, hc.mono hg, hT, hp, fun j y hy => (hacc j y hy).mono le_rfl hpre⟩
    · obtain ⟨k, T, p, hk, hc, hT, hp, hacc⟩ := hreply hr
      exact ⟨k, T, p, hk, hc, hT, hp, fun j y hy => (hacc j y hy).mono le_rfl hpre⟩

/-- An event that the order of the records does not speak of. -/
theorem Chronicle.record_plain (h : Chronicle N w g) (hg : Grows g g') {e : Event}
    (ho : ∀ {t}, g'.owner t ≠ none → g.owner t ≠ none ∧ g'.lead t = g.lead t ∨
      ∀ x ∈ g'.lead t, x.term ≠ t)
    (he : ∀ k x, e ≠ .accept k x) (he' : ∀ k x, e ≠ .apply k x) (he'' : ∀ k x, e ≠ .reply k x) :
    Chronicle N (w.record i e) g' := by
  refine h.record hg (fun {t k x} hne hk ht => .inl ?_) (fun h => absurd h (he _ _))
    (fun h => absurd h (he' _ _)) (fun h => absurd h (he'' _ _))
  rcases ho hne with ⟨hne', hl⟩ | hno
  · exact ⟨hne', hl ▸ hk⟩
  · exact absurd ht (hno x (List.mem_of_getElem? hk))

/-- An entry of a traced log was accepted at its place. -/
theorem Good.accepted (h : Good N w g) {l : List LogEntry} (hl : Traced (scheme N) g l) {k : ℕ}
    {x : LogEntry} (hk : l[k]? = some x) : AcceptedBefore w w.history.length k x := by
  obtain ⟨ho, s, hs⟩ := hl k x hk
  refine h.chronicle.created ho ?_ rfl
  have hlt : k < (l.take (k + 1)).length := by
    have := (List.getElem?_eq_some_iff.mp hk).1
    simp only [List.length_take]
    omega
  rw [← hs, List.getElem?_append_left hlt, List.getElem?_take_of_lt (by omega), hk]

/-- A step of process `i`, with the moves of the replicated log that go with it. -/
theorem Good.move (h : Good N w g) (hm : Moves (scheme N) i g g')
    (hdisk : ∀ j, j ≠ i → w'.disk j = w.disk j) (hterm : g'.term i = (w'.disk i).currentTerm)
    (hlog : g'.log i = (w'.disk i).log) (hlt : (w'.disk i).log.length < 2 ^ 31)
    (howner : ∀ {t j}, g'.owner t = some j ↔ Won w' j t) (hpos : ∀ {t}, g'.owner t ≠ none → 1 ≤ t)
    (hsent : ∀ p ∈ w'.sent, p ∈ w.sent ∨ PacketOk N g' p)
    (hrec : ∀ r ∈ w'.history, r ∈ w.history ∨ RecordOk N g' r) (hch : Chronicle N w' g') :
    Good N w' g' := by
  have hg := hm.grows h.inv
  refine ⟨hm.inv h.inv, fun j => ?_, fun j => ?_, fun j => ?_, howner, hpos, fun p hp => ?_,
    fun r hr => ?_, hch⟩
  · by_cases hj : j = i
    · exact hj ▸ hterm
    · rw [(hm.leaves h.inv hj).term_eq, hdisk j hj, h.term]
  · by_cases hj : j = i
    · exact hj ▸ hlog
    · rw [(hm.leaves h.inv hj).log_eq, hdisk j hj, h.log]
  · by_cases hj : j = i
    · exact hj ▸ hlt
    · rw [hdisk j hj]
      exact h.log_lt j
  · exact (hsent p hp).elim (fun hp => (h.packets p hp).mono hg) id
  · exact (hrec r hr).elim (fun hr => (h.records r hr).mono hg) id

theorem Good.owner_pos_of (h : Good N w g) (ho : g'.owner = g.owner) {t : ℕ}
    (hne : g'.owner t ≠ none) : 1 ≤ t :=
  h.owner_pos (ho ▸ hne)

/-- A storage call that nothing is recorded of. -/
theorem Good.store (h : Good N w g) {d : Disk} (hm : Moves (scheme N) i g g')
    (hterm : g'.term i = d.currentTerm) (hlog : g'.log i = d.log) (hlt : d.log.length < 2 ^ 31)
    (ho : g'.owner = g.owner) (hl : g'.lead = g.lead) :
    Good N { w with disk := Function.update w.disk i d } g' := by
  refine h.move hm (fun j hj => by simp [hj]) (by simpa using hterm) (by simpa using hlog)
    (by simpa using hlt) ?_ (h.owner_pos_of ho) (fun _ hp => .inl hp) (fun _ hr => .inl hr)
    (h.chronicle.mono (hm.grows h.inv) rfl (fun _ => le_rfl) ho hl)
  rw [ho]
  exact h.owner

/-- A record of an event that is no win. -/
theorem Good.record (h : Good N w g) {e : Event} (hm : Moves (scheme N) i g g')
    (hterm : g'.term i = g.term i) (hlog : g'.log i = g.log i) (ho : g'.owner = g.owner)
    (he : ∀ t, e ≠ .becameLeader t) (hrec : RecordOk N g' ⟨i, w.inc i, e, w.disk i⟩)
    (hch : Chronicle N (w.record i e) g') : Good N (w.record i e) g' := by
  refine h.move hm (fun _ _ => rfl) (hterm.trans (h.term i)) (hlog.trans (h.log i)) (h.log_lt i)
    (fun {t j} => ?_) (h.owner_pos_of ho) (fun _ hp => .inl hp) (fun r hr => ?_) hch
  · rw [ho, won_record, or_iff_left fun hw => he t hw.2]
    exact h.owner
  · refine (List.mem_append.mp hr).imp_right fun hr => ?_
    rw [List.mem_singleton.mp hr]
    exact hrec

theorem Good.send (h : Good N w g) {p : Pkt} (hm : Moves (scheme N) i g g')
    (hterm : g'.term i = g.term i) (hlog : g'.log i = g.log i) (ho : g'.owner = g.owner)
    (hl : g'.lead = g.lead) (hp : PacketOk N g' p) :
    Good N { w with sent := w.sent ++ [p] } g' := by
  refine h.move hm (fun _ _ => rfl) (hterm.trans (h.term i)) (hlog.trans (h.log i)) (h.log_lt i)
    (fun {t j} => ?_) (h.owner_pos_of ho) (fun q hq => ?_) (fun _ hr => .inl hr)
    (h.chronicle.mono (hm.grows h.inv) rfl (fun _ => le_rfl) ho hl)
  · rw [ho]
    exact h.owner
  · refine (List.mem_append.mp hq).imp_right fun hq => ?_
    rw [List.mem_singleton.mp hq]
    exact hp

def logic (D : Deployment) : Logic Ghost where
  Known w := Tally D.numNodes (fun _ => True) w
  Good w g := Good D.numNodes w g
  Mem i n w g := Memory D i n w g
  Ghost i g g' := Moves (scheme D.numNodes) i g g'
  Rely i g g' := Leaves i g g'
  rely_refl := Leaves.refl _ _
  rely_trans h h' := h.trans h'
  ghost_rely h hm hij := Moves.leaves hm h.inv hij.symm
  mem_stable h hi hg _ := h.stable hi hg
  mem_script _ h := ⟨h.lt, h.disk, h.config, h.commit, h.applied, h.candidate, fun hr =>
    ⟨(h.leader hr).owner, (h.leader hr).next, (h.leader hr).acked⟩⟩

end GeoRaft.Replication
