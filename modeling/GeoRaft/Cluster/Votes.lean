import Mathlib.Data.Finset.Card
import Mathlib.Data.Finset.Range
import GeoRaft.Node.Quiet
import GeoRaft.Cluster.System

/-!
What is true of the votes of a cluster, whatever its nodes are in the middle of.

A node can vote twice in a term: `become_follower` clears the vote of a
candidate that meets the leader of its own term. But such a node has stood down
(`StoodDown`) before it won, one of its two votes was for itself, and it never
wins that term any more (`Tally.voted_two`). That is enough for the elections.
-/

/-! ### Majorities of `0, …, n - 1` -/

namespace GeoRaft.Quorum

/-- More than half of the processes below `n`, by the integer division a
program makes. -/
def Majority (n : ℕ) (Q : Finset ℕ) : Prop := Q ⊆ Finset.range n ∧ n / 2 < Q.card

/-- Any two majorities meet. -/
theorem Majority.inter {n : ℕ} {P Q : Finset ℕ} (hP : Majority n P) (hQ : Majority n Q) :
    ∃ i, i ∈ P ∧ i ∈ Q := by
  have hcard : (Finset.range n).card < P.card + Q.card := by
    rw [Finset.card_range]
    have hp := hP.2
    have hq := hQ.2
    omega
  obtain ⟨i, hi⟩ := Finset.inter_nonempty_of_card_lt_card_add_card hP.1 hQ.1 hcard
  exact ⟨i, Finset.mem_inter.mp hi⟩

theorem Majority.lt {n : ℕ} {Q : Finset ℕ} (hQ : Majority n Q) {i : ℕ} (hi : i ∈ Q) : i < n :=
  Finset.mem_range.mp (hQ.1 hi)

end GeoRaft.Quorum

namespace GeoRaft.Election

open Quorum

/-! ### What happened in a term -/

/-- Node `i` voted for `c` in term `t`. -/
def Voted (w : World) (i t c : ℕ) : Prop := ∃ r ∈ w.history, r.node = i ∧ r.event = .vote t c

instance (w : World) (i t c : ℕ) : Decidable (Voted w i t c) :=
  inferInstanceAs (Decidable (∃ r ∈ w.history, _))

/-- Node `i` became the leader of term `t`. -/
def Won (w : World) (i t : ℕ) : Prop := ∃ r ∈ w.history, r.node = i ∧ r.event = .becameLeader t

instance (w : World) (i t : ℕ) : Decidable (Won w i t) :=
  inferInstanceAs (Decidable (∃ r ∈ w.history, _))

/-- Node `i` became a follower without leaving its term `t`. -/
def StoodDown (w : World) (i t : ℕ) : Prop :=
  ∃ r ∈ w.history, r.node = i ∧ r.event = .becameFollower t ∧ r.disk.currentTerm = t

/-- The packet asks `j` for its vote for `c` in term `t`. -/
def Asks (c j t : ℕ) (p : Pkt) : Prop :=
  p.src = c ∧ p.dst = j ∧ ∃ req, p.rpc = .requestVoteReq req ∧ req.term = t

/-- The packet tells `c` that `j` voted for it in term `t`. -/
def Grants (j c t : ℕ) (p : Pkt) : Prop :=
  p.src = j ∧ p.dst = c ∧ ∃ res, p.rpc = .requestVoteRes res ∧ res.term = t ∧ res.voteGranted ≠ 0

/-- At most one packet of the list has the property. -/
def AtMostOne (P : Pkt → Prop) (l : List Pkt) : Prop :=
  ∀ (k k' : ℕ) (p p' : Pkt), l[k]? = some p → l[k']? = some p' → P p → P p' → k = k'

theorem AtMostOne.append {P : Pkt → Prop} {l : List Pkt} {x : Pkt} (h : AtMostOne P l)
    (hx : P x → ∀ p ∈ l, ¬P p) : AtMostOne P (l ++ [x]) := by
  have old : ∀ {k : ℕ} {p : Pkt}, (l ++ [x])[k]? = some p → l[k]? = some p ∨ k = l.length ∧ x = p := by
    intro k p hk
    rw [List.getElem?_append] at hk
    split at hk
    · exact .inl hk
    · rw [List.getElem?_singleton] at hk
      split at hk
      · exact .inr ⟨by omega, Option.some.inj hk⟩
      · cases hk
  intro k k' p p' hk hk' hp hp'
  rcases old hk with hk | ⟨rfl, rfl⟩ <;> rcases old hk' with hk' | ⟨rfl, rfl⟩
  · exact h k k' p p' hk hk' hp hp'
  · exact absurd hp (hx hp' p (List.mem_of_getElem? hk))
  · exact absurd hp' (hx hp p' (List.mem_of_getElem? hk'))
  · rfl

theorem voted_record {w : World} {i j t c : ℕ} {e : Event} :
    Voted (w.record i e) j t c ↔ Voted w j t c ∨ i = j ∧ e = .vote t c := by
  simp [Voted, World.record, or_and_right, exists_or]

theorem won_record {w : World} {i j t : ℕ} {e : Event} :
    Won (w.record i e) j t ↔ Won w j t ∨ i = j ∧ e = .becameLeader t := by
  simp [Won, World.record, or_and_right, exists_or]

theorem stoodDown_record {w : World} {i j t : ℕ} {e : Event} :
    StoodDown (w.record i e) j t ↔
      StoodDown w j t ∨ i = j ∧ e = .becameFollower t ∧ (w.disk i).currentTerm = t := by
  simp [StoodDown, World.record, or_and_right, exists_or]

/-- A world in which nothing that matters to elections was recorded. -/
theorem record_quiet {w : World} {i : ℕ} {e : Event} (he : ¬e.Electoral) :
    (∀ j t c, Voted (w.record i e) j t c ↔ Voted w j t c) ∧
      (∀ j t, Won (w.record i e) j t ↔ Won w j t) ∧
      (∀ j t, StoodDown (w.record i e) j t ↔ StoodDown w j t) := by
  refine ⟨fun j t c => ?_, fun j t => ?_, fun j t => ?_⟩
  · rw [voted_record, or_iff_left]
    rintro ⟨-, rfl⟩
    exact he trivial
  · rw [won_record, or_iff_left]
    rintro ⟨-, rfl⟩
    exact he trivial
  · rw [stoodDown_record, or_iff_left]
    rintro ⟨-, rfl, -⟩
    exact he trivial

/-! ### The invariant -/

/-- The vote `c` of node `i` in term `t` is one it may vote beside: its own, cast
before it stood down. -/
def Aside (w : World) (i t c : ℕ) : Prop := c = i ∧ ¬Won w i t ∧ StoodDown w i t

/-- `B` says which nodes may stand down at all. -/
structure Tally (N : ℕ) (B : ℕ → Prop) (w : World) : Prop where
  term_lt : ∀ i, (w.disk i).currentTerm < 2 ^ 31
  votedFor_le : ∀ i, (w.disk i).votedFor ≤ pfNoVote
  packet_lt : ∀ p ∈ w.sent, p.src < N ∧ p.rpc.term < 2 ^ 31
  voted_le : ∀ {i t c}, Voted w i t c → t ≤ (w.disk i).currentTerm ∧ i < N ∧ c < N
  voted_cur : ∀ {i t c}, Voted w i t c → t = (w.disk i).currentTerm →
    (w.disk i).votedFor = c ∨ Aside w i t c
  voted_two : ∀ {i t c c'}, Voted w i t c → Voted w i t c' → c ≠ c' →
    Aside w i t c ∨ Aside w i t c'
  won : ∀ {i t}, Won w i t → t ≤ (w.disk i).currentTerm ∧
    ∃ Q, Majority N Q ∧ ∀ j ∈ Q, Voted w j t i
  request : ∀ {p req}, p ∈ w.sent → p.rpc = .requestVoteReq req →
    req.term ≤ (w.disk p.src).currentTerm ∧ req.candidateId = p.src ∧ p.dst ≠ p.src
  request_one : ∀ c j t, AtMostOne (Asks c j t) w.sent
  grant : ∀ {p j c t}, p ∈ w.sent → Grants j c t p →
    Voted w j t c ∧ ∃ k ∈ w.handled, ∃ q, w.sent[k]? = some q ∧ Asks c j t q
  grant_one : ∀ j c t, AtMostOne (Grants j c t) w.sent
  stood : ∀ {i t}, StoodDown w i t → B i

variable {N : ℕ} {B : ℕ → Prop} {w : World}

/-- Two votes of one node in one term are the same, unless it stood down. -/
theorem Tally.voted_unique (h : Tally N B w) {i t c c' : ℕ} (hB : ¬B i) (hc : Voted w i t c)
    (hc' : Voted w i t c') : c = c' := by
  by_contra hne
  rcases h.voted_two hc hc' hne with ⟨-, -, hs⟩ | ⟨-, -, hs⟩ <;> exact hB (h.stood hs)

/-- No two nodes win one term: a voter of both would be one of the two, and it
stood down without winning. -/
theorem Tally.won_unique (h : Tally N B w) {i j t : ℕ} (hi : Won w i t) (hj : Won w j t) :
    i = j := by
  by_contra hne
  obtain ⟨-, Q, hQ, hvote⟩ := h.won hi
  obtain ⟨-, Q', hQ', hvote'⟩ := h.won hj
  obtain ⟨k, hk, hk'⟩ := hQ.inter hQ'
  rcases h.voted_two (hvote k hk) (hvote' k hk') hne with ⟨rfl, hnot, -⟩ | ⟨rfl, hnot, -⟩
  · exact hnot hi
  · exact hnot hj

/-- A node that is handling a request it was asked once has not granted it yet. -/
theorem Tally.not_granted (h : Tally N B w) {k c j t : ℕ} {p : Pkt} (hk : w.sent[k]? = some p)
    (hp : Asks c j t p) (hnew : k ∉ w.handled) : ∀ q ∈ w.sent, ¬Grants j c t q := by
  intro q hq hg
  obtain ⟨-, k', hk', q', hq', ha⟩ := h.grant hq hg
  obtain rfl := h.request_one c j t k k' p q' hk hq' hp ha
  exact hnew hk'

/-! ### The effects -/

theorem Tally.consume (h : Tally N B w) (k : ℕ) : Tally N B (w.consume k) :=
  { h with
    grant := fun hp hg =>
      let ⟨hv, k', hk', hrest⟩ := h.grant hp hg
      ⟨hv, k', List.mem_cons_of_mem _ hk', hrest⟩ }

/-- A new disk of node `i`. In the term it holds then, the vote it holds is the
only one, votes cast aside excepted. -/
theorem Tally.store (h : Tally N B w) {i : ℕ} {d : Disk}
    (hle : (w.disk i).currentTerm ≤ d.currentTerm) (hlt : d.currentTerm < 2 ^ 31)
    (hv : d.votedFor ≤ pfNoVote)
    (hcur : ∀ c, Voted w i d.currentTerm c → d.votedFor = c ∨ Aside w i d.currentTerm c) :
    Tally N B { w with disk := Function.update w.disk i d } := by
  have hmono : ∀ j, (w.disk j).currentTerm ≤ (Function.update w.disk i d j).currentTerm := by
    intro j
    by_cases hj : j = i
    · subst hj
      simpa using hle
    · simp [hj]
  refine { h with
    term_lt := fun j => ?_
    votedFor_le := fun j => ?_
    voted_le := fun hc => ⟨(h.voted_le hc).1.trans (hmono _), (h.voted_le hc).2⟩
    voted_cur := fun {j t c} hc ht => ?_
    won := fun hw => ⟨(h.won hw).1.trans (hmono _), (h.won hw).2⟩
    request := fun hp hr => ⟨(h.request hp hr).1.trans (hmono _), (h.request hp hr).2⟩ }
  · by_cases hj : j = i
    · subst hj
      simpa using hlt
    · simpa [hj] using h.term_lt j
  · by_cases hj : j = i
    · subst hj
      simpa using hv
    · simpa [hj] using h.votedFor_le j
  · by_cases hj : j = i
    · subst hj
      simp only [Function.update_self] at ht ⊢
      subst ht
      exact hcur c hc
    · simp only [Function.update_of_ne hj] at ht ⊢
      exact h.voted_cur hc ht

theorem Tally.record (h : Tally N B w) {i : ℕ} {e : Event} (he : ¬e.Electoral) :
    Tally N B (w.record i e) := by
  obtain ⟨hv, hw, hs⟩ := record_quiet (w := w) (i := i) he
  refine { h with
    voted_le := fun hc => h.voted_le ((hv _ _ _).mp hc)
    voted_cur := fun {j t c} hc ht => ?_
    voted_two := fun {j t c c'} hc hc' hne => ?_
    won := fun {j t} hj => ?_
    grant := fun hp hg => ⟨(hv _ _ _).mpr (h.grant hp hg).1, (h.grant hp hg).2⟩
    stood := fun {j t} hd => h.stood ((hs j t).mp hd) }
  · simpa only [World.record_disk, Aside, hw, hs] using h.voted_cur ((hv _ _ _).mp hc) ht
  · simpa only [Aside, hw, hs] using h.voted_two ((hv _ _ _).mp hc) ((hv _ _ _).mp hc') hne
  · simpa only [World.record_disk, hv] using h.won ((hw _ _).mp hj)

theorem Aside.mono {w w' : World} {i t c : ℕ} (hw : Won w' i t → Won w i t)
    (hs : StoodDown w i t → StoodDown w' i t) (h : Aside w i t c) : Aside w' i t c :=
  ⟨h.1, fun hwon => h.2.1 (hw hwon), hs h.2.2⟩

theorem Tally.becameFollower (h : Tally N B w) {i t : ℕ} (hB : t = (w.disk i).currentTerm → B i) :
    Tally N B (w.record i (.becameFollower t)) := by
  have hv : ∀ {j s c}, Voted (w.record i (.becameFollower t)) j s c ↔ Voted w j s c := by
    simp [voted_record]
  have hw : ∀ {j s}, Won (w.record i (.becameFollower t)) j s ↔ Won w j s := by
    simp [won_record]
  have haside : ∀ {j s c}, Aside w j s c → Aside (w.record i (.becameFollower t)) j s c :=
    fun ha => ha.mono hw.mp fun hs => stoodDown_record.mpr (.inl hs)
  refine { h with
    voted_le := fun hc => h.voted_le (hv.mp hc)
    voted_cur := fun hc ht => (h.voted_cur (hv.mp hc) ht).imp_right haside
    voted_two := fun hc hc' hne =>
      (h.voted_two (hv.mp hc) (hv.mp hc') hne).imp haside haside
    won := fun {j s} hj => ?_
    grant := fun hp hg => ⟨hv.mpr (h.grant hp hg).1, (h.grant hp hg).2⟩
    stood := ?_ }
  · simpa only [World.record_disk, hv] using h.won (hw.mp hj)
  · intro j s hs
    rcases stoodDown_record.mp hs with hs | ⟨rfl, he, hd⟩
    · exact h.stood hs
    · obtain rfl := Event.becameFollower.inj he
      exact hB hd.symm

/-- A vote for the candidate that the disk of the node names. -/
theorem Tally.vote (h : Tally N B w) {i t c : ℕ} (hi : i < N) (hc : c < N)
    (ht : (w.disk i).currentTerm = t) (hv : (w.disk i).votedFor = c) :
    Tally N B (w.record i (.vote t c)) := by
  have hw : ∀ {j s}, Won (w.record i (.vote t c)) j s ↔ Won w j s := by
    simp [won_record]
  have hs : ∀ {j s}, StoodDown (w.record i (.vote t c)) j s ↔ StoodDown w j s := by
    simp [stoodDown_record]
  have hvoted : ∀ {j s c'}, Voted (w.record i (.vote t c)) j s c' →
      Voted w j s c' ∨ i = j ∧ t = s ∧ c = c' := by
    intro j s c' hj
    rcases voted_record.mp hj with hj | ⟨rfl, he⟩
    · exact .inl hj
    · obtain ⟨rfl, rfl⟩ := Event.vote.inj he
      exact .inr ⟨rfl, rfl, rfl⟩
  have haside : ∀ {j s c'}, Aside w j s c' → Aside (w.record i (.vote t c)) j s c' :=
    fun ha => ha.mono hw.mp hs.mpr
  -- an older vote of the term is the same one or was cast aside
  have hold : ∀ {c'}, Voted w i t c' → c = c' ∨ Aside w i t c' :=
    fun hc' => hv ▸ h.voted_cur hc' ht.symm
  refine { h with
    voted_le := fun hj => ?_
    voted_cur := fun hj hcur => ?_
    voted_two := fun hj hj' hne => ?_
    won := fun {j s} hj => ?_
    grant := fun hp hg => ⟨voted_record.mpr (.inl (h.grant hp hg).1), (h.grant hp hg).2⟩
    stood := fun hd => h.stood (hs.mp hd) }
  · rcases hvoted hj with hj | ⟨rfl, rfl, rfl⟩
    · exact h.voted_le hj
    · exact ⟨ht.ge, hi, hc⟩
  · rcases hvoted hj with hj | ⟨rfl, rfl, rfl⟩
    · exact (h.voted_cur hj hcur).imp_right haside
    · exact .inl hv
  · rcases hvoted hj with hj | ⟨rfl, rfl, rfl⟩
    · rcases hvoted hj' with hj' | ⟨rfl, rfl, rfl⟩
      · exact (h.voted_two hj hj' hne).imp haside haside
      · exact .inl (haside ((hold hj).resolve_left (Ne.symm hne)))
    · rcases hvoted hj' with hj' | ⟨-, -, heq⟩
      · exact .inr (haside ((hold hj').resolve_left hne))
      · exact absurd heq hne
  · obtain ⟨hle, Q, hQ, hvote⟩ := h.won (hw.mp hj)
    exact ⟨hle, Q, hQ, fun k hk => voted_record.mpr (.inl (hvote k hk))⟩

/-- A win, by a node that has voted for nobody else. -/
theorem Tally.becameLeader (h : Tally N B w) {i t : ℕ} {Q : Finset ℕ}
    (ht : (w.disk i).currentTerm = t) (hself : (w.disk i).votedFor = i)
    (hown : ∀ c, Voted w i t c → c = i) (hQ : Majority N Q) (hvote : ∀ j ∈ Q, Voted w j t i) :
    Tally N B (w.record i (.becameLeader t)) := by
  have hv : ∀ {j s c}, Voted (w.record i (.becameLeader t)) j s c ↔ Voted w j s c := by
    simp [voted_record]
  have hs : ∀ {j s}, StoodDown (w.record i (.becameLeader t)) j s ↔ StoodDown w j s := by
    simp [stoodDown_record]
  have hw : ∀ {j s}, Won (w.record i (.becameLeader t)) j s → Won w j s ∨ i = j ∧ t = s := by
    intro j s hj
    rcases won_record.mp hj with hj | ⟨rfl, he⟩
    · exact .inl hj
    · exact .inr ⟨rfl, Event.becameLeader.inj he⟩
  have haside : ∀ {j s c}, ¬(i = j ∧ t = s) → Aside w j s c →
      Aside (w.record i (.becameLeader t)) j s c :=
    fun hne ha => ha.mono (fun hj => (hw hj).resolve_right hne) hs.mpr
  refine { h with
    voted_le := fun hc => h.voted_le (hv.mp hc)
    voted_cur := fun {j s c} hc hcur => ?_
    voted_two := fun {j s c c'} hc hc' hne => ?_
    won := fun {j s} hj => ?_
    grant := fun hp hg => ⟨hv.mpr (h.grant hp hg).1, (h.grant hp hg).2⟩
    stood := fun hd => h.stood (hs.mp hd) }
  · by_cases heq : i = j ∧ t = s
    · obtain ⟨rfl, rfl⟩ := heq
      exact .inl (hself.trans (hown c (hv.mp hc)).symm)
    · exact (h.voted_cur (hv.mp hc) hcur).imp_right (haside heq)
  · by_cases heq : i = j ∧ t = s
    · obtain ⟨rfl, rfl⟩ := heq
      exact absurd ((hown c (hv.mp hc)).trans (hown c' (hv.mp hc')).symm) hne
    · exact (h.voted_two (hv.mp hc) (hv.mp hc') hne).imp (haside heq) (haside heq)
  · simp only [hv]
    rcases hw hj with hj | ⟨rfl, rfl⟩
    · exact h.won hj
    · exact ⟨ht.ge, Q, hQ, hvote⟩

/-- A packet is handed to the transport. If it asks for a vote or grants one, it
is the first to do so. -/
theorem Tally.send (h : Tally N B w) {p : Pkt} (hsrc : p.src < N) (hlt : p.rpc.term < 2 ^ 31)
    (hreq : ∀ req, p.rpc = .requestVoteReq req → req.term ≤ (w.disk p.src).currentTerm ∧
      req.candidateId = p.src ∧ p.dst ≠ p.src ∧ ∀ q ∈ w.sent, ¬Asks p.src p.dst req.term q)
    (hgrant : ∀ {t}, Grants p.src p.dst t p → Voted w p.src t p.dst ∧
      (∃ k ∈ w.handled, ∃ q, w.sent[k]? = some q ∧ Asks p.dst p.src t q) ∧
      ∀ q ∈ w.sent, ¬Grants p.src p.dst t q) :
    Tally N B { w with sent := w.sent ++ [p] } := by
  have hget : ∀ {k : ℕ} {q : Pkt}, w.sent[k]? = some q → (w.sent ++ [p])[k]? = some q := by
    intro k q hk
    rw [List.getElem?_append_left (List.getElem?_eq_some_iff.mp hk).1, hk]
  refine { h with
    packet_lt := fun q hq => ?_
    request := fun {q req} hq hr => ?_
    request_one := fun c j t => (h.request_one c j t).append fun ha => ?_
    grant := fun {q j c t} hq hg => ?_
    grant_one := fun j c t => (h.grant_one j c t).append fun hg => ?_ }
  · rcases List.mem_append.mp hq with hq | hq
    · exact h.packet_lt q hq
    · obtain rfl := List.mem_singleton.mp hq
      exact ⟨hsrc, hlt⟩
  · rcases List.mem_append.mp hq with hq | hq
    · exact h.request hq hr
    · obtain rfl := List.mem_singleton.mp hq
      obtain ⟨h1, h2, h3, -⟩ := hreq req hr
      exact ⟨h1, h2, h3⟩
  · obtain ⟨rfl, rfl, req, hr, rfl⟩ := ha
    exact (hreq req hr).2.2.2
  · have key : Voted w j t c ∧ ∃ k ∈ w.handled, ∃ q, w.sent[k]? = some q ∧ Asks c j t q := by
      rcases List.mem_append.mp hq with hq | hq
      · exact h.grant hq hg
      · obtain rfl := List.mem_singleton.mp hq
        obtain ⟨rfl, rfl, -⟩ := id hg
        exact ⟨(hgrant hg).1, (hgrant hg).2.1⟩
    obtain ⟨hv, k, hk, q', hq', ha⟩ := key
    exact ⟨hv, k, hk, q', hget hq', ha⟩
  · obtain ⟨rfl, rfl, -⟩ := id hg
    exact (hgrant hg).2.2

/-- A packet that neither asks for a vote nor grants one. -/
theorem Tally.send_quiet (h : Tally N B w) {p : Pkt} (hsrc : p.src < N)
    (hlt : p.rpc.term < 2 ^ 31) (hq : ¬p.rpc.Electoral) :
    Tally N B { w with sent := w.sent ++ [p] } := by
  refine h.send hsrc hlt (fun req hr => ?_) fun {t} hg => ?_
  · rw [hr] at hq
    exact absurd trivial hq
  · obtain ⟨-, -, res, hr, -, hv⟩ := hg
    rw [hr] at hq
    exact absurd hv hq

end GeoRaft.Election
