import GeoRaft.Cluster.Traffic
import GeoRaft.Library.LogShipping
import GeoRaft.Node.Candidacy

/-!
A leader and one follower in one term, over a channel that loses nothing.

Each of the two goes on with everything else it does: the leader beats, serves
clients and hears from other nodes, the follower hears from candidates and clients.
As long as neither leaves its role or its term, what happens between them is what
`LogShipping` says of a source and its copy, entry by entry and index by index.
-/

namespace GeoRaft

open Word LogShipping

/-- The log `F` of a node in term `t` beside the log `L` of the leader of that term:
entries of one index and term end the same prefix, and those of term `t` are the
leader's. -/
structure Tied (t : ℕ) (L F : List LogEntry) : Prop where
  matching : ∀ k e e', L[k]? = some e → F[k]? = some e' → e.term = e'.term → Agrees L F (k + 1)
  own : ∀ k e, F[k]? = some e → e.term = t → Agrees L F (k + 1)

namespace Tied

variable {t id k c : ℕ} {L F : List LogEntry} {req : AppendEntriesReq}

theorem fresh (h : Tied t L F) {e : LogEntry} (he : e.term = t) : F[L.length]? ≠ some e := by
  intro hx
  have hle := (h.own _ e hx he).1
  omega

theorem append (h : Tied t L F) {e : LogEntry} (he : e.term = t) : Tied t (L ++ [e]) F := by
  have hown : ∀ k e', F[k]? = some e' → e'.term = t → Agrees (L ++ [e]) F (k + 1) := by
    intro k e' hx ht
    have hagr := h.own k e' hx ht
    exact (agrees_append_iff hagr.1 [e]).mpr hagr
  refine ⟨fun k e₁ e' hL hF hterm => ?_, hown⟩
  rcases Nat.lt_or_ge k L.length with hlt | hge
  · rw [List.getElem?_append_left hlt] at hL
    have hagr := h.matching k e₁ e' hL hF hterm
    exact (agrees_append_iff hagr.1 [e]).mpr hagr
  · refine hown k e' hF ?_
    rw [List.getElem?_append_right hge, List.getElem?_singleton] at hL
    split at hL
    · rw [← hterm, ← Option.some.inj hL, he]
    · cases hL

theorem takeIn (h : Tied t L F) (o : Offer) : Tied t L (takeIn L F o) := by
  unfold LogShipping.takeIn
  split
  · -- a prefix of the leader's log
    have hprefix : ∀ k e', (L.take o.upTo)[k]? = some e' → Agrees L (L.take o.upTo) (k + 1) := by
      intro k e' hx
      have hlt := (List.getElem?_eq_some_iff.mp hx).1
      rw [List.length_take] at hlt
      refine ⟨by omega, ?_⟩
      rw [List.take_take, min_eq_left (by omega)]
    exact ⟨fun k _ e' _ hF _ => hprefix k e' hF, fun k e' hF _ => hprefix k e' hF⟩
  · exact h

/-- A follower's check compares one term, and that is enough. -/
theorem present_iff (h : Tied t L F) (hreq : Drawn t id L k c req) (hL : L.length < 2 ^ 31) :
    Node.PrevPresent F req ↔ Agrees L F k := by
  have hle := hreq.le
  have hin := hreq.within
  cases k with
  | zero =>
      refine iff_of_true (.inl ⟨?_, hreq.prevLogTerm⟩) (agrees_zero L F)
      rw [hreq.prevLogIdx]
      unfold u32
      omega
  | succ k =>
      have hidx : req.prevLogIdx = k := by
        rw [hreq.prevLogIdx, Nat.cast_succ, add_sub_cancel_right, u32_of_nat (by omega)]
      have hx : L[k]? = some L[k] := List.getElem?_eq_getElem (by omega)
      rw [Node.PrevPresent, hidx, hreq.prevLogTerm, termBefore_succ hx]
      constructor
      · rintro (⟨hwrap, -⟩ | ⟨e', hF', hterm⟩)
        · omega
        · exact h.matching k _ e' hx hF' hterm.symm
      · intro hagr
        exact .inr ⟨L[k], by rw [hagr.getElem?_eq (Nat.lt_succ_self k), hx], rfl⟩

/-- Merging a part of the leader's log: the copy takes the offer. -/
theorem mergeLog_eq (h : Tied t L F) (hk : Agrees L F k) (hle : k ≤ c) (hin : c ≤ L.length)
    (late : Bool) : mergeLog F k ((L.drop k).take (c - k)) = LogShipping.takeIn L F ⟨k, c, late⟩ := by
  have hget : ∀ i < c - k, ((L.drop k).take (c - k))[i]? = L[k + i]? := fun i hi => by
    rw [List.getElem?_take_of_lt hi, List.getElem?_drop]
  -- up to the first difference the two logs agree
  have hagree : ∀ i, i ≤ c - k → (∀ j < i, ¬Differs F k ((L.drop k).take (c - k)) j) →
      Agrees L F (k + i) := by
    intro i hi hsame
    cases i with
    | zero => exact hk
    | succ i =>
        have hx : L[k + i]? = some L[k + i] := List.getElem?_eq_getElem (by omega)
        have hno := hsame i (Nat.lt_succ_self i)
        have hlen : i < ((L.drop k).take (c - k)).length := by
          rw [List.length_take, List.length_drop]
          omega
        have hterm : F[k + i]?.map LogEntry.term = L[k + i]?.map LogEntry.term := by
          by_contra hne
          exact hno ⟨hlen, by rwa [hget i (by omega)]⟩
        rw [hx, Option.map_some, Option.map_eq_some_iff] at hterm
        obtain ⟨e', hF, heq⟩ := hterm
        exact h.matching (k + i) _ e' hx hF heq.symm
  unfold LogShipping.takeIn
  by_cases hall : ∀ j, ¬Differs F k ((L.drop k).take (c - k)) j
  · have hc := hagree (c - k) le_rfl fun j _ => hall j
    rw [Nat.add_sub_cancel' hle] at hc
    rw [mergeLog_of_agree hall, if_neg (fun hcond => hcond.2 hc)]
  · push Not at hall
    classical
    obtain ⟨i, hi, hfirst⟩ := (⟨Nat.find hall, Nat.find_spec hall, fun j hj => Nat.find_min hall hj⟩ :
      ∃ i, Differs F k ((L.drop k).take (c - k)) i ∧
        ∀ j < i, ¬Differs F k ((L.drop k).take (c - k)) j)
    have hlt : i < c - k := by
      have := hi.1
      rw [List.length_take, List.length_drop] at this
      omega
    have hi' := hagree i hlt.le hfirst
    have hdiff : ¬Agrees L F c := by
      intro hc
      refine hi.2 ?_
      rw [hget i hlt, hc.getElem?_eq (by omega)]
    rw [mergeLog_of_differs hi hfirst, if_pos ⟨hk, hdiff⟩, hi'.2, List.drop_take, List.drop_drop]
    rw [← List.take_add, show k + i + (c - k - i) = c by omega]

end Tied

/-! ### The follower -/

namespace Node

variable {n : Node Disk}

/-- A follower in term `t`. -/
structure FollowerIn (n : Node Disk) (t : ℕ) : Prop where
  role : n.role = .follower
  term : n.store.currentTerm = t
  readable : t < 2 ^ 31
  length : n.store.log.length < 2 ^ 31

/-- What the follower says to a request that carries the log from `k` to `c`. -/
def replyTo (t : ℕ) (accepted : Prop) [Decidable accepted] (c : ℕ) : AppendEntriesRes :=
  if accepted then ⟨t, u32 ((c : ℤ) - 1), 1⟩ else ⟨t, 0, 0⟩

/-- The answer that ends a script is the only one in it. -/
theorem sentTo_answer {m m' : Node Disk} {dst t a b a' b' : ℕ}
    (hmute : sentTo Rpc.entriesRes dst m.script = [])
    (heq : m.sendAppendEntriesResponse dst t a b = m'.sendAppendEntriesResponse dst t a' b') :
    sentTo Rpc.entriesRes dst (m'.sendAppendEntriesResponse dst t a' b').script = [⟨t, a', b'⟩] := by
  have hscript : m.script ++ [_] = m'.script ++ [_] := congrArg Node.script heq
  have hpre := (List.append_inj' hscript rfl).1
  show sentTo Rpc.entriesRes dst (m'.script ++ [_]) = _
  rw [sentTo_append, ← hpre, hmute, sentTo_send, if_pos rfl]
  rfl

section

variable {t id k c : ℕ} {L : List LogEntry} {req : AppendEntriesReq}

/-- A follower takes a request of its term as it is. -/
theorem FollowerIn.accepts (h : n.FollowerIn t) (hterm : req.term = t) (env : Env) :
    n.handleAppendEntriesRequest env req =
      ({ n with leaderId := req.leaderId } : Node Disk).acceptAppendEntries env t req := by
  have ht : n.store.currentTerm < 2 ^ 31 := by rw [h.term]; exact h.readable
  have hread : n.get .currentTerm = n.store.currentTerm := by
    rw [get_currentTerm, i32_of_nat ht]
  have hcur : u32 (n.get .currentTerm) = t := by rw [u32_term ht, h.term]
  rw [handleAppendEntriesRequest, if_neg (by rw [hread]; omega), hcur, if_neg (by omega),
    if_neg (by rw [hterm, h.role]; simp)]

theorem FollowerIn.handles_stays (h : n.FollowerIn t) (hterm : req.term = t) (env : Env) :
    (n.handleAppendEntriesRequest env req).role = .follower ∧
      (n.handleAppendEntriesRequest env req).store.currentTerm = t ∧
      (n.handleAppendEntriesRequest env req).config = n.config := by
  rw [h.accepts hterm env]
  have hkeeps := acceptAppendEntries_keeps env { n with leaderId := req.leaderId } t req
  have hle : t ≤ ({ n with leaderId := req.leaderId } : Node Disk).store.currentTerm := h.term.ge
  have hquiet := acceptAppendEntries_quiet env _ hle req
  exact ⟨hkeeps.role.trans h.role, hquiet.currentTerm.trans h.term, hkeeps.config⟩

open Classical in
/-- A request of the leader is an offer, and the log of the follower takes it. -/
theorem FollowerIn.handles (h : n.FollowerIn t) (hidle : n.script = []) (htied : Tied t L n.store.log)
    (hreq : Drawn t id L k c req) (hL : L.length < 2 ^ 31) (late : Bool) (env : Env) :
    (n.handleAppendEntriesRequest env req).store.log = takeIn L n.store.log ⟨k, c, late⟩ ∧
      sentTo Rpc.entriesRes id (n.handleAppendEntriesRequest env req).script =
        [replyTo t (Agrees L n.store.log k) c] := by
  have hle := hreq.le
  have hin := hreq.within
  have hprev : req.prevLogIdx = 2 ^ 32 - 1 ∨ req.prevLogIdx < 2 ^ 31 := by
    rw [hreq.prevLogIdx]
    unfold u32
    omega
  have hpresent := htied.present_iff hreq hL
  rw [h.accepts hreq.term env]
  have hlen := h.length
  have hs : ({ n with leaderId := req.leaderId } : Node Disk).store = n.store := rfl
  have hscript : ({ n with leaderId := req.leaderId } : Node Disk).script = [] := hidle
  generalize ({ n with leaderId := req.leaderId } : Node Disk) = m at hscript hs ⊢
  rw [← hs] at hlen hpresent htied ⊢
  obtain ⟨hrefuses, hmerges⟩ := acceptAppendEntries_merges env m t hlen hprev
  -- nothing is answered before the answer
  obtain ⟨m₁, newMatch, success, hmute, -, heq⟩ := acceptAppendEntries_speaks env t req
    (speaks_of_idle (P := fun _ pkt => pkt.rpc.entriesRes = none) hscript) hlen
    fun _ _ _ _ _ => rfl
  have hnone := sentTo_eq_nil hmute id
  rw [hreq.leaderId] at heq hrefuses hmerges
  by_cases hagr : Agrees L m.store.log k
  · obtain ⟨m₂, hlog, -, -, heq₂⟩ := hmerges (hpresent.mpr hagr)
      (by rw [hreq.start_eq hL, hreq.nEntries]; omega)
    rw [heq₂]
    refine ⟨?_, ?_⟩
    · show m₂.store.log = _
      rw [hlog, hreq.start_eq hL, hreq.entries]
      exact htied.mergeLog_eq hagr hle hin late
    · rw [sentTo_answer hnone (heq.symm.trans heq₂), replyTo, if_pos hagr, hreq.newMatch_eq]
  · obtain ⟨m₂, hlog, -, -, heq₂⟩ := hrefuses (mt hpresent.mp hagr)
    rw [heq₂]
    refine ⟨?_, ?_⟩
    · show m₂.store.log = _
      rw [hlog, LogShipping.takeIn, if_neg fun hcond => hagr hcond.1]
    · rw [sentTo_answer hnone (heq.symm.trans heq₂), replyTo, if_neg hagr]

end

/-- Whatever else a follower gets, its log stays, and the leader is refused at most. -/
theorem FollowerIn.other {t : ℕ} (h : n.FollowerIn t) (hidle : n.script = []) (id : ℕ) {input : Input}
    (hin : ∀ env pkt, input = .packet env pkt →
      ∀ req, pkt.rpc = .appendEntriesReq req → req.term < t) :
    (n.handle input).store.log = n.store.log ∧
      (sentTo Rpc.entriesRes id (n.handle input).script = [] ∨
        sentTo Rpc.entriesRes id (n.handle input).script = [⟨t, 0, 0⟩]) := by
  have haside : Aside n.store n := .idle hidle
  have hquiet : ∀ {m : Node Disk}, Aside n.store m → m.store.log = n.store.log ∧
      (sentTo Rpc.entriesRes id m.script = [] ∨ sentTo Rpc.entriesRes id m.script = [⟨t, 0, 0⟩]) :=
    fun hm => ⟨hm.log, .inl (hm.responsesTo id)⟩
  have hlead : n.role ≠ .leader := by rw [h.role]; decide
  have hcand : n.role ≠ .candidate := by rw [h.role]; decide
  cases input with
  | timeout env => exact hquiet (haside.raftHandleTimeout hlead env)
  | packet env pkt =>
      unfold Node.handle
      dsimp only
      split
      · exact hquiet haside
      · unfold Node.raftHandleRpc
        cases hrpc : pkt.rpc with
        | appendEntriesReq req =>
            have hstale := hin env pkt rfl req hrpc
            rw [← h.term] at hstale
            dsimp only
            rw [handleAppendEntriesRequest_stale env (by rw [h.term]; exact h.readable) hstale, h.term]
            refine ⟨rfl, ?_⟩
            show sentTo Rpc.entriesRes id (n.script ++ [_]) = [] ∨
              sentTo Rpc.entriesRes id (n.script ++ [_]) = _
            rw [sentTo_append, hidle, sentTo_send, sentTo_nil]
            split
            · exact .inr rfl
            · exact .inl rfl
        | appendEntriesRes resp => exact hquiet (haside.handleAppendEntriesResponse env _ resp)
        | requestVoteReq req => exact hquiet (haside.handleRequestVoteRequest env _ req)
        | requestVoteRes resp => exact hquiet (haside.handleRequestVoteResponse hcand env _ resp)
        | procReq call => exact hquiet (haside.handleProcRequest hlead call _)
        | procRes resp => exact hquiet haside

end Node

/-! ### The pair -/

/-- The two nodes and the `AppendEntries` calls under way between them, the oldest
first. A request is on record with whether the leader had accepted a success when it
built it. -/
structure Pair where
  leader : Node Disk
  follower : Node Disk
  requests : List (AppendEntriesReq × Bool)
  responses : List AppendEntriesRes
  matched : Bool

inductive PairMove
  /-- Anything the leader does but handle a response of the follower. -/
  | leader (input : Input)
  /-- Anything the follower does but handle a request of the leader. -/
  | follower (input : Input)
  /-- The follower handles the oldest request. -/
  | request (env : Env)
  /-- The leader handles the oldest response. -/
  | response (env : Env)

namespace Pair

/-- The leader after a turn, with what it sent to the follower. -/
def leads (p : Pair) (n : Node Disk) : Pair :=
  { p with
    leader := n.settled
    requests := p.requests ++
      (sentTo Rpc.entriesReq p.follower.config.id n.script).map fun req => (req, p.matched) }

/-- The follower after a turn, with what it answered. -/
def follows (p : Pair) (n : Node Disk) : Pair :=
  { p with
    follower := n.settled
    responses := p.responses ++ sentTo Rpc.entriesRes p.leader.config.id n.script }

@[simp] theorem follows_leader (p : Pair) (n : Node Disk) : (p.follows n).leader = p.leader := rfl

def move (p : Pair) : PairMove → Pair
  | .leader input => p.leads (p.leader.handle input)
  | .follower input => p.follows (p.follower.handle input)
  | .request env =>
    match p.requests with
    | [] => p
    | (req, _) :: requests =>
      { p with requests := requests }.follows (p.follower.handleAppendEntriesRequest env req)
  | .response env =>
    match p.responses with
    | [] => p
    | res :: responses =>
      { p with
        responses := responses
        matched := p.matched || decide (res.success ≠ 0) }.leads
          (p.leader.handleAppendEntriesResponse env p.follower.config.id res)

/-- The leader is the only one of its term. Packets of other nodes may be any; those that
make the leader write outside its tables are ignored, as in `Lives`. -/
def Allows (p : Pair) : PairMove → Prop
  | .leader input => p.leader.Foreign p.follower.config.id input
  | .follower input => input.WellFormed ∧ ∀ env pkt, input = .packet env pkt →
      ∀ req, pkt.rpc = .appendEntriesReq req → req.term < p.follower.store.currentTerm
  | _ => True

/-- Nobody leaves its role or its term, and the logs are not full. -/
structure Steady (t : ℕ) (p : Pair) : Prop where
  leads : p.leader.role = .leader
  follows : p.follower.role = .follower
  leaderTerm : p.leader.store.currentTerm = t
  followerTerm : p.follower.store.currentTerm = t
  leaderLength : p.leader.store.log.length < 2 ^ 31
  followerLength : p.follower.store.log.length < 2 ^ 31

instance (t : ℕ) (p : Pair) : Decidable (p.Steady t) :=
  decidable_of_iff (p.leader.role = .leader ∧ p.follower.role = .follower ∧
      p.leader.store.currentTerm = t ∧ p.follower.store.currentTerm = t ∧
      p.leader.store.log.length < 2 ^ 31 ∧ p.follower.store.log.length < 2 ^ 31)
    ⟨fun ⟨h₁, h₂, h₃, h₄, h₅, h₆⟩ => ⟨h₁, h₂, h₃, h₄, h₅, h₆⟩,
      fun ⟨h₁, h₂, h₃, h₄, h₅, h₆⟩ => ⟨h₁, h₂, h₃, h₄, h₅, h₆⟩⟩

/-- The runs all of whose moves satisfy `ok`. -/
inductive Runs (t : ℕ) (ok : Pair → PairMove → Prop) (p : Pair) : Pair → Prop
  | start : Runs t ok p p
  | move {q : Pair} (h : Runs t ok p q) {m : PairMove} (hm : q.Allows m) (hok : ok q m)
      (hs : (q.move m).Steady t) : Runs t ok p (q.move m)

/-- What the pair is to `LogShipping`. -/
def offer (r : AppendEntriesReq × Bool) : Offer where
  start := u32 (r.1.prevLogIdx + 1)
  upTo := u32 (r.1.prevLogIdx + 1) + r.1.nEntries
  late := r.2

def answer (res : AppendEntriesRes) : Option ℕ :=
  if res.success ≠ 0 then some (u32 (res.newMatchIndex + 1)) else none

def view (p : Pair) : State LogEntry where
  source := p.leader.store.log
  copy := p.follower.store.log
  next := p.leader.nextIndex.getD p.follower.config.id 0
  offers := p.requests.map offer
  answers := p.responses.map answer
  late := p.matched

/-- The request carries a part of the log of this leader of term `t`. -/
def Carries (t : ℕ) (leader : Node Disk) (req : AppendEntriesReq) : Prop :=
  ∃ k c, Drawn t leader.config.id leader.store.log k c req

/-- What holds of a pair in all its runs. -/
structure Sound (t : ℕ) (p : Pair) : Prop where
  leads : p.leader.LeaderOf p.follower.config.id
  follows : p.follower.FollowerIn t
  term : p.leader.store.currentTerm = t
  leaderIdle : p.leader.script = []
  followerIdle : p.follower.script = []
  tied : Tied t p.leader.store.log p.follower.store.log
  requests : ∀ r ∈ p.requests, Carries t p.leader r.1
  responses : ∀ res ∈ p.responses, res.term = t

variable {t : ℕ} {p q : Pair} {ok : Pair → PairMove → Prop}

theorem Sound.sane (h : p.Sound t) : p.view.Sane where
  next := h.leads.next
  offers := by
    intro o ho
    obtain ⟨r, hr, rfl⟩ := List.mem_map.mp ho
    obtain ⟨k, c, hdrawn⟩ := h.requests r hr
    have hle := hdrawn.le
    have hin := hdrawn.within
    simp only [offer, hdrawn.start_eq h.leads.length, hdrawn.nEntries]
    exact ⟨by omega, show k + (c - k) ≤ p.leader.store.log.length by omega⟩

theorem offer_drawn {id k c : ℕ} {log : List LogEntry} {req : AppendEntriesReq}
    (h : Drawn t id log k c req) (hlen : log.length < 2 ^ 31) (late : Bool) :
    offer (req, late) = ⟨k, c, late⟩ := by
  have hle := h.le
  simp only [offer, h.start_eq hlen, h.nEntries, Nat.add_sub_cancel' hle]

/-! ### One move -/

/-- The obligations of a turn of the leader. -/
theorem Sound.afterLead (h : p.Sound t) {n : Node Disk} (hl : n.LeaderOf p.follower.config.id)
    (hterm : n.store.currentTerm = t) (htied : Tied t n.store.log p.follower.store.log)
    (hold : ∀ req, Carries t p.leader req → Carries t n req)
    (hnew : ∀ req ∈ sentTo Rpc.entriesReq p.follower.config.id n.script, Carries t n req) :
    (p.leads n).Sound t where
  leads := ⟨hl.role, hl.term, hl.length, hl.member, hl.other, hl.slot, hl.next, hl.stays⟩
  follows := h.follows
  term := hterm
  leaderIdle := rfl
  followerIdle := h.followerIdle
  tied := htied
  requests := by
    intro r hr
    rcases List.mem_append.mp hr with hr | hr
    · exact hold r.1 (h.requests r hr)
    · obtain ⟨req, hreq, rfl⟩ := List.mem_map.mp hr
      exact hnew req hreq
  responses := h.responses

theorem carries_congr {n n' : Node Disk} (hcfg : n'.config = n.config)
    (hlog : n'.store.log = n.store.log) {req : AppendEntriesReq} (h : Carries t n req) :
    Carries t n' req := by
  obtain ⟨k, c, hdrawn⟩ := h
  exact ⟨k, c, by rwa [hcfg, hlog]⟩

theorem Sound.leads_quiet (h : p.Sound t) {n : Node Disk} (hl : n.LeaderOf p.follower.config.id)
    (hterm : n.store.currentTerm = t) (hcfg : n.config = p.leader.config)
    (hlog : n.store.log = p.leader.store.log)
    (hsent : sentTo Rpc.entriesReq p.follower.config.id n.script = []) :
    (p.leads n).Sound t ∧ (p.leads n).view =
      { p.view with next := n.nextIndex.getD p.follower.config.id 0 } := by
  refine ⟨h.afterLead hl hterm ?_ (fun _ => carries_congr hcfg hlog) (by simp [hsent]), ?_⟩
  · rw [hlog]
    exact h.tied
  · simp [view, Pair.leads, Node.settled, hlog, hsent]

theorem Sound.leads_beat (h : p.Sound t) {n : Node Disk} (hl : n.LeaderOf p.follower.config.id)
    (hterm : n.store.currentTerm = t) (hsame : Node.SamePlace p.follower.config.id p.leader n)
    (hbeat : Node.Beats p.leader p.follower.config.id n) :
    (p.leads n).Sound t ∧ (p.leads n).view = p.view.apply maxAppendEntriesN .beat := by
  have hcfg := hsame.config
  have hlog := hbeat.log
  obtain ⟨req, hsent, hdrawn⟩ := hbeat.sent
  rw [h.term, hlog] at hdrawn
  refine ⟨h.afterLead hl hterm ?_ (fun _ => carries_congr hcfg hlog) ?_, ?_⟩
  · rw [hlog]
    exact h.tied
  · rw [hsent]
    intro req' hreq'
    rw [List.mem_singleton.mp hreq']
    exact ⟨_, _, by rwa [hcfg, hlog]⟩
  · simpa [view, State.apply, Pair.leads, Node.settled, hlog, hsent,
      offer_drawn hdrawn h.leads.length] using hsame.next

theorem Sound.leads_append (h : p.Sound t) {n : Node Disk} (hl : n.LeaderOf p.follower.config.id)
    (hterm : n.store.currentTerm = t) (hsame : Node.SamePlace p.follower.config.id p.leader n)
    {e : LogEntry} (he : e.term = t) (happ : Node.Appends p.leader p.follower.config.id e n) :
    (p.leads n).Sound t ∧ (p.leads n).view = p.view.apply maxAppendEntriesN (.append e) := by
  have hcfg := hsame.config
  have hlog := happ.log
  obtain ⟨req, hsent, hdrawn⟩ := happ.sent
  rw [h.term, hlog] at hdrawn
  have hlen : (p.leader.store.log ++ [e]).length < 2 ^ 31 := by
    rw [← hlog]
    exact hl.length
  refine ⟨h.afterLead hl hterm ?_ ?_ ?_, ?_⟩
  · rw [hlog]
    exact h.tied.append he
  · rintro req' ⟨k, c, hold⟩
    exact ⟨k, c, by rw [hcfg, hlog]; exact hold.append e⟩
  · rw [hsent]
    intro req' hreq'
    rw [List.mem_singleton.mp hreq']
    exact ⟨_, _, by rwa [hcfg, hlog]⟩
  · simpa [view, State.apply, State.batch, Pair.leads, Node.settled, hlog, hsent,
      offer_drawn hdrawn hlen] using hsame.next

/-- The obligations of a turn of the follower. -/
theorem Sound.afterFollow (h : p.Sound t) {n : Node Disk} (hf : n.FollowerIn t)
    (hcfg : n.config = p.follower.config) (htied : Tied t p.leader.store.log n.store.log)
    (hnew : ∀ res ∈ sentTo Rpc.entriesRes p.leader.config.id n.script, res.term = t) :
    (p.follows n).Sound t where
  leads := by
    show p.leader.LeaderOf n.config.id
    rw [hcfg]
    exact h.leads
  follows := ⟨hf.role, hf.term, hf.readable, hf.length⟩
  term := h.term
  leaderIdle := h.leaderIdle
  followerIdle := rfl
  tied := htied
  requests := h.requests
  responses := by
    intro res hres
    rcases List.mem_append.mp hres with hres | hres
    · exact h.responses res hres
    · exact hnew res hres

theorem answer_replyTo (t c : ℕ) (accepted : Prop) [Decidable accepted] (hc : c < 2 ^ 31) :
    answer (Node.replyTo t accepted c) = if accepted then some c else none := by
  have hwrap : u32 ((u32 ((c : ℤ) - 1) : ℤ) + 1) = c := by
    unfold u32
    omega
  unfold Node.replyTo
  split
  · simp [answer, hwrap]
  · rfl

theorem move_request {req : AppendEntriesReq} {late : Bool}
    {requests : List (AppendEntriesReq × Bool)} (hp : p.requests = (req, late) :: requests)
    (env : Env) : p.move (.request env) = ({ p with requests := requests } : Pair).follows
      (p.follower.handleAppendEntriesRequest env req) := by
  rw [move, hp]

theorem move_response {res : AppendEntriesRes} {responses : List AppendEntriesRes}
    (hp : p.responses = res :: responses) (env : Env) : p.move (.response env) =
      ({ p with
        responses := responses
        matched := p.matched || decide (res.success ≠ 0) } : Pair).leads
          (p.leader.handleAppendEntriesResponse env p.follower.config.id res) := by
  rw [move, hp]

theorem move_request_nil (hp : p.requests = []) (env : Env) : p.move (.request env) = p := by
  rw [move, hp]

theorem move_response_nil (hp : p.responses = []) (env : Env) : p.move (.response env) = p := by
  rw [move, hp]

theorem view_offers_cons {r : AppendEntriesReq × Bool} {requests : List (AppendEntriesReq × Bool)}
    (hp : p.requests = r :: requests) : p.view.offers = offer r :: requests.map offer := by
  rw [view, hp, List.map_cons]

theorem view_follows (p : Pair) {n : Node Disk} (hcfg : n.config = p.follower.config) :
    (p.follows n).view = { p.view with
      copy := n.store.log
      answers := p.view.answers ++
        (sentTo Rpc.entriesRes p.leader.config.id n.script).map answer } := by
  have hid : (p.follows n).follower.config = p.follower.config := hcfg
  rw [view, hid, view]
  congr 1
  exact List.map_append

/-- The follower takes the oldest offer. -/
theorem Sound.request (h : p.Sound t) (env : Env) : (p.move (.request env)).Sound t ∧
    (p.move (.request env)).view = p.view.apply maxAppendEntriesN .receive := by
  cases hp : p.requests with
  | nil =>
      rw [move_request_nil hp, State.apply_receive_nil (by simp [view, hp])]
      exact ⟨h, rfl⟩
  | cons r requests =>
      obtain ⟨req, late⟩ := r
      obtain ⟨k, c, hdrawn⟩ := h.requests (req, late) (by rw [hp]; exact List.mem_cons_self)
      have hdrawn : Drawn t p.leader.config.id p.leader.store.log k c req := hdrawn
      have hin := hdrawn.within
      have hlen := h.leads.length
      obtain ⟨hlog, hsent⟩ := h.follows.handles h.followerIdle h.tied hdrawn hlen late env
      obtain ⟨hrole, hterm, hcfg⟩ := h.follows.handles_stays hdrawn.term env
      have hpop : ({ p with requests := requests } : Pair).Sound t :=
        ⟨h.leads, h.follows, h.term, h.leaderIdle, h.followerIdle, h.tied,
          fun r hr => h.requests r (by rw [hp]; exact List.mem_cons_of_mem _ hr), h.responses⟩
      rw [move_request hp]
      generalize p.follower.handleAppendEntriesRequest env req = n at hlog hsent hrole hterm hcfg ⊢
      have hroom : n.store.log.length < 2 ^ 31 := by
        rw [hlog]
        exact (length_takeIn_le _).trans_lt (max_lt hlen h.follows.length)
      have hf : n.FollowerIn t := ⟨hrole, hterm, h.follows.readable, hroom⟩
      have htied : Tied t p.leader.store.log n.store.log := by
        rw [hlog]
        exact h.tied.takeIn _
      have hnew : ∀ res ∈ sentTo Rpc.entriesRes p.leader.config.id n.script, res.term = t := by
        rw [hsent]
        intro res hres
        rw [List.mem_singleton.mp hres]
        unfold Node.replyTo
        split <;> rfl
      refine ⟨hpop.afterFollow hf hcfg htied hnew, ?_⟩
      have hoffers : p.view.offers = ⟨k, c, late⟩ :: requests.map offer := by
        simp [view, hp, offer_drawn hdrawn hlen]
      have hanswer : (sentTo Rpc.entriesRes p.leader.config.id n.script).map answer =
          [p.view.answer ⟨k, c, late⟩] := by
        classical
        rw [hsent, List.map_singleton, answer_replyTo t c _ (by omega)]
        rfl
      rw [State.apply_receive_cons hoffers, ← hanswer]
      have hview := view_follows ({ p with requests := requests } : Pair) hcfg
      rw [hlog] at hview
      exact hview

/-- The leader learns the oldest answer. -/
theorem Sound.response (h : p.Sound t) (env : Env) : (p.move (.response env)).Sound t ∧
    (p.move (.response env)).view = p.view.apply maxAppendEntriesN .learn := by
  cases hp : p.responses with
  | nil =>
      rw [move_response_nil hp, State.apply_learn_nil (by simp [view, hp])]
      exact ⟨h, rfl⟩
  | cons res responses =>
      have hterm : res.term = p.leader.store.currentTerm := by
        rw [h.term]
        exact h.responses res (by rw [hp]; exact List.mem_cons_self)
      obtain ⟨hstore, hrole, hcfg, hslots, hnext, hsent⟩ :=
        h.leads.response h.leaderIdle env hterm
      have hpop : ({ p with
          responses := responses
          matched := p.matched || decide (res.success ≠ 0) } : Pair).Sound t :=
        ⟨h.leads, h.follows, h.term, h.leaderIdle, h.followerIdle, h.tied, h.requests,
          fun r hr => h.responses r (by rw [hp]; exact List.mem_cons_of_mem _ hr)⟩
      rw [move_response hp]
      generalize p.leader.handleAppendEntriesResponse env p.follower.config.id res = n
        at hstore hrole hcfg hslots hnext hsent ⊢
      have hle : n.nextIndex.getD p.follower.config.id 0 ≤ p.leader.store.log.length := by
        have := h.leads.next
        rw [hnext]
        split <;> omega
      have hl : n.LeaderOf p.follower.config.id := by
        refine ⟨hrole, ?_, ?_, ?_, ?_, ?_, ?_, ?_⟩
        · rw [hstore]; exact h.leads.term
        · rw [hstore]; exact h.leads.length
        · rw [hcfg]; exact h.leads.member
        · rw [hcfg]; exact h.leads.other
        · rw [hslots]; exact h.leads.slot
        · rw [hstore]; exact hle
        · rw [hcfg]; exact h.leads.stays
      obtain ⟨hsound, hview⟩ := hpop.leads_quiet hl (by rw [hstore]; exact h.term) hcfg
        (congrArg Disk.log hstore) hsent
      refine ⟨hsound, ?_⟩
      rw [hview, hnext]
      by_cases hs : res.success ≠ 0
      · have hanswers : p.view.answers = some (u32 (res.newMatchIndex + 1)) :: responses.map answer := by
          simp [view, hp, answer, hs]
        rw [State.apply_learn_some hanswers]
        simp [view, hs]
      · have hanswers : p.view.answers = none :: responses.map answer := by
          simp [view, hp, answer, hs]
        rw [State.apply_learn_none hanswers]
        simp [view, hs]

/-- The leader does something else: nothing, a heartbeat or a new entry. -/
theorem Sound.leader (h : p.Sound t) {input : Input} (hin : p.Allows (.leader input))
    (hs : (p.move (.leader input)).Steady t) : (p.move (.leader input)).Sound t ∧
      ((p.move (.leader input)).view = p.view ∨
        (p.move (.leader input)).view = p.view.apply maxAppendEntriesN .beat ∨
        ∃ e : LogEntry, e.term = t ∧
          (p.move (.leader input)).view = p.view.apply maxAppendEntriesN (.append e)) := by
  obtain ⟨hrole, -, hterm, -, hroom, -⟩ := hs
  have hrole : (p.leader.handle input).role = .leader := hrole
  have hterm : (p.leader.handle input).store.currentTerm = t := hterm
  have hroom : (p.leader.handle input).store.log.length < 2 ^ 31 := hroom
  obtain ⟨hturn, hsame⟩ := h.leads.turn h.leaderIdle hin hrole hroom
  unfold move
  dsimp only
  generalize p.leader.handle input = n at hrole hterm hroom hturn hsame ⊢
  have hl : p.leader.store.log.length ≤ n.store.log.length → n.LeaderOf p.follower.config.id := by
    intro hle
    refine ⟨hrole, ?_, hroom, ?_, ?_, ?_, ?_, ?_⟩
    · rw [hterm]; exact h.follows.readable
    · rw [hsame.config]; exact h.leads.member
    · rw [hsame.config]; exact h.leads.other
    · rw [hsame.slots]; exact h.leads.slot
    · rw [hsame.next]; exact h.leads.next.trans hle
    · rw [hsame.config]; exact h.leads.stays
  cases hturn with
  | quiet hlog hsent =>
      obtain ⟨hsound, hview⟩ := h.leads_quiet (hl (by rw [hlog])) hterm hsame.config hlog hsent
      refine ⟨hsound, .inl ?_⟩
      rw [hview, hsame.next]
      rfl
  | beat hbeat =>
      obtain ⟨hsound, hview⟩ := h.leads_beat (hl (by rw [hbeat.log])) hterm hsame hbeat
      exact ⟨hsound, .inr (.inl hview)⟩
  | append call happ =>
      have hlog := happ.log
      obtain ⟨hsound, hview⟩ := h.leads_append (hl (by rw [hlog, List.length_append]; omega))
        hterm hsame h.term happ
      exact ⟨hsound, .inr (.inr ⟨_, h.term, hview⟩)⟩

/-- The follower does something else: nothing, or it turns a stale request down. -/
theorem Sound.follower (h : p.Sound t) {input : Input} (hin : p.Allows (.follower input))
    (hs : (p.move (.follower input)).Steady t) : (p.move (.follower input)).Sound t ∧
      ((p.move (.follower input)).view = p.view ∨
        (p.move (.follower input)).view = p.view.apply maxAppendEntriesN .refuse) := by
  obtain ⟨-, hrole, -, hterm, -, hroom⟩ := hs
  have hrole : (p.follower.handle input).role = .follower := hrole
  have hterm : (p.follower.handle input).store.currentTerm = t := hterm
  have hroom : (p.follower.handle input).store.log.length < 2 ^ 31 := hroom
  obtain ⟨hwf, hstale⟩ := hin
  obtain ⟨hlog, hsent⟩ := h.follows.other h.followerIdle p.leader.config.id
    fun env pkt heq req hreq => h.follows.term ▸ hstale env pkt heq req hreq
  have hcfg := Node.handle_config p.follower hwf
  unfold move
  dsimp only
  generalize p.follower.handle input = n at hrole hterm hroom hlog hsent hcfg ⊢
  have hf : n.FollowerIn t := ⟨hrole, hterm, h.follows.readable, hroom⟩
  have htied : Tied t p.leader.store.log n.store.log := by
    rw [hlog]
    exact h.tied
  rcases hsent with hsent | hsent
  · refine ⟨h.afterFollow hf hcfg htied (by simp [hsent]), .inl ?_⟩
    rw [view_follows p hcfg, hlog, hsent, List.map_nil, List.append_nil]
    rfl
  · refine ⟨h.afterFollow hf hcfg htied (by simp [hsent]), .inr ?_⟩
    rw [view_follows p hcfg, hlog, hsent]
    rfl

end Pair

end GeoRaft
