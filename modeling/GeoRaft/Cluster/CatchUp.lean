import GeoRaft.Cluster.Pair

/-!
What a leader and a follower come to over a channel that loses nothing.

A run of the cluster leads to pairs that are sound, and from there on a run of the
pair is one of `LogShipping`. Two things follow. How far a follower gets depends on
the client requests of the leader alone, as heartbeats carry no entries. And a
follower that has accepted a request can reject the next one, which it cannot if
successes reach the leader when nothing is missing any more.
-/

namespace GeoRaft

open Word LogShipping

namespace Node

variable {n : Node Disk}

/-- A candidate that leads after a packet has just won. -/
theorem raftHandleRpc_won (env : Env) {pkt : Pkt} (hpkt : pkt.rpc.term < 2 ^ 32)
    (hc : n.role = .candidate) (hr : (n.raftHandleRpc env pkt).role = .leader) :
    n.raftHandleRpc env pkt = n.countVote.becomeLeader env := by
  have hlow : ∀ {m : Node Disk}, m.role = .follower ∨ m.role = n.role → ¬m.role = .leader := by
    rintro m (hm | hm) hr
    · rw [hm] at hr
      cases hr
    · rw [hm, hc] at hr
      cases hr
  unfold raftHandleRpc at hr ⊢
  cases hrpc : pkt.rpc with
  | appendEntriesReq req =>
      rw [hrpc] at hpkt
      simp only [hrpc] at hr
      rcases handleAppendEntriesRequest_cases env n hpkt with hidle | ⟨-, hidle⟩ | ⟨-, -, hidle⟩
      · exact absurd hr (hlow (.inr hidle.keeps.role))
      · exact absurd hr (hlow (.inl hidle.keeps.role))
      · exact absurd hr (hlow (.inr hidle.keeps.role))
  | appendEntriesRes resp =>
      simp only [hrpc] at hr
      rcases handleAppendEntriesResponse_cases env n pkt.src resp with ⟨-, heq⟩ | heq | ⟨hlead, -⟩
      · rw [heq] at hr
        cases hr
      · rw [heq, hc] at hr
        cases hr
      · rw [hc] at hlead
        cases hlead
  | requestVoteReq req =>
      simp only [hrpc] at hr
      rcases handleRequestVoteRequest_cases env n pkt.src req with hidle | ⟨-, heq⟩ | ⟨-, heq⟩
      · exact absurd hr (hlow (.inr hidle.keeps.role))
      · rw [heq] at hr
        exact absurd hr (hlow (.inl (decideVote_keeps env _ _ _).role))
      · rw [heq] at hr
        exact absurd hr (hlow (.inr (decideVote_keeps env n _ _).role))
  | requestVoteRes resp =>
      simp only [hrpc] at hr ⊢
      rcases handleRequestVoteResponse_cases env n pkt.src resp with
        heq | ⟨-, -, heq⟩ | ⟨-, -, -, heq⟩
      · rw [heq, hc] at hr
        cases hr
      · rw [heq] at hr
        cases hr
      · rw [heq] at hr ⊢
        split
        · rfl
        · rename_i hfew
          rw [if_neg hfew] at hr
          exact absurd hr (hlow (.inr rfl))
  | procReq req =>
      simp only [hrpc] at hr
      exact absurd hr (hlow (.inr (handleProcRequest_keeps n req pkt.src).role))
  | procRes resp =>
      simp only [hrpc] at hr
      exact absurd hr (hlow (.inr rfl))

/-- A leader keeps a next index for each node. -/
theorem raftHandleRpc_slots (env : Env) {pkt : Pkt} (hpkt : pkt.rpc.term < 2 ^ 32)
    (h : n.role = .leader → n.nextIndex.length = n.config.numNodes)
    (hr : (n.raftHandleRpc env pkt).role = .leader) :
    (n.raftHandleRpc env pkt).nextIndex.length = n.config.numNodes := by
  cases raftHandleRpc_indexes env hpkt hr with
  | same hlead _ hx => rw [hx, h hlead]
  | won hc =>
      rw [raftHandleRpc_won env hpkt hc hr, becomeLeader_nextIndex, List.length_replicate]
      rfl
  | success _ _ hlead _ _ _ hx => rw [hx, List.length_set, h hlead]
  | failure _ _ hlead _ _ _ _ hx => rw [hx, List.length_modify, h hlead]

end Node

namespace Replication

open ReplicatedLog Election

variable {D : Deployment} {c : Cluster} {l f : ℕ}

theorem leader_slots (hc : Cluster.Reachable D c) :
    ∀ i < D.numNodes, (c.node i).role = .leader → (c.node i).nextIndex.length = D.numNodes := by
  refine hc.invariant (P := fun c => ∀ i < D.numNodes, (c.node i).role = .leader →
    (c.node i).nextIndex.length = D.numNodes) (fun i _ hr => by cases hr) ?_
  intro c c' a hc ih hs hok i hi hr
  have hT := tally (B := fun _ => True) id (fun _ => .inl trivial) hc
  obtain ⟨g, -, hfinish⟩ := Run.finish id hc
  obtain ⟨w', g', -, hmem, -⟩ := hfinish i hi
  have hcfg : (c.node i).config.numNodes = D.numNodes := by
    rw [hmem.config, D.numNodes_eq]
  have hsame : ∀ n : Node Disk, Node.Keeps (c.node i) n → n.role = .leader →
      n.nextIndex.length = D.numNodes := by
    intro n hk hr
    rw [hk.nextIndex, ih i hi (hk.role ▸ hr)]
  cases Cluster.step_node hs i with
  | still s hn =>
      rw [hn] at hr ⊢
      exact hsame _ ⟨rfl, rfl, rfl, rfl, rfl, rfl⟩ hr
  | restart d hn hinc =>
      rw [hn] at hr
      cases hr
  | @deliver k env pkt hpkt _ _ _ hn =>
      rw [hn] at hr ⊢
      rw [Node.raftHandleRpc_slots env
        (by have := (hT.packet_lt _ (List.mem_of_getElem? hpkt)).2; omega)
        (fun hlead => (ih i hi hlead).trans hcfg.symm) hr, hcfg]
  | timeout env _ _ hn =>
      rw [hn] at hr ⊢
      rcases Node.raftHandleTimeout_cases env (c.node i) with hidle | ⟨-, heq⟩ | ⟨hcand, heq⟩
      · exact hsame _ hidle.keeps hr
      · rw [heq, (Node.becomeCandidate_stays env _).role] at hr
        cases hr
      · rw [heq, (Node.startElection_stays env _).role, hcand] at hr
        cases hr
  | client src req _ _ hn =>
      rw [hn] at hr ⊢
      exact hsame _ (Node.handleProcRequest_keeps _ req src) hr

/-- Of the entries of the leader's term every log has only what the leader has. -/
theorem tied (hc : Cluster.Reachable D c) (hl : l < D.numNodes)
    (hr : (c.node l).role = .leader) (hli : (c.node l).script = []) (hf : f < D.numNodes)
    (hfi : (c.node f).script = []) :
    Tied (c.node l).store.currentTerm (c.node l).store.log (c.node f).store.log := by
  obtain ⟨g, hg⟩ := holds hc
  have hgood : Good D.numNodes c.world g := hg.good
  have hml : Memory D l (c.node l) c.world g := ((hg.ok l hl).at hli).2.2
  have hmf : Memory D f (c.node f) c.world g := ((hg.ok f hf).at hfi).2.2
  have htrf := hgood.inv.log_traced f
  have htrl := hgood.inv.log_traced l
  rw [hmf.log_eq hgood] at htrf
  rw [hml.log_eq hgood] at htrl
  refine ⟨fun k e e' hL hF hterm => ?_, fun k e hF hterm => ?_⟩
  · refine agrees_of_take_prefix (List.getElem?_eq_some_iff.mp hF).1 ?_
    rw [← htrl.matching htrf hL hF hterm]
    exact List.take_prefix _ _
  · refine agrees_of_take_prefix (List.getElem?_eq_some_iff.mp hF).1 ?_
    have hpre := (htrf k e hF).2
    rwa [show (scheme D.numNodes).termOf e = (c.node l).store.currentTerm from hterm,
      leader_log hgood hml hr] at hpre

end Replication

/-- A leader and a follower of its term that a run of the cluster has led to, both
between two turns. The leader is not told to crash. -/
structure Couple (D : Deployment) (c : Cluster) (l f : ℕ) : Prop where
  reachable : Cluster.Reachable D c
  leader_lt : l < D.numNodes
  follower_lt : f < D.numNodes
  leads : (c.node l).role = .leader
  follows : (c.node f).role = .follower
  leaderIdle : (c.node l).script = []
  followerIdle : (c.node f).script = []
  term : (c.node f).store.currentTerm = (c.node l).store.currentTerm
  stays : (D.config l).crashAfterH < 0

/-- The two as a pair, with nothing under way between them. -/
def Cluster.pair (c : Cluster) (l f : ℕ) : Pair := ⟨c.node l, c.node f, [], [], false⟩

theorem Couple.sound {D : Deployment} {c : Cluster} {l f : ℕ} (h : Couple D c l f) :
    (c.pair l f).Sound (c.node l).store.currentTerm := by
  obtain ⟨hc, hl, hf, hlead, hfollow, hli, hfi, hterm, hstays⟩ := h
  have hstore := Cluster.Run.storageOk id hc
  have hslots := Replication.leader_slots hc l hl hlead
  obtain ⟨g, hg⟩ := Replication.holds hc
  have hml : Replication.Memory D l (c.node l) c.world g := ((hg.ok l hl).at hli).2.2
  have hmf : Replication.Memory D f (c.node f) c.world g := ((hg.ok f hf).at hfi).2.2
  have hlid : (c.node l).config.id = l := by rw [hml.config, D.id_eq]
  have hfid : (c.node f).config.id = f := by rw [hmf.config, D.id_eq]
  have hne : f ≠ l := by
    rintro rfl
    rw [hlead] at hfollow
    cases hfollow
  refine ⟨⟨hlead, (hstore l hl).1, (hstore l hl).2, ?_, ?_, ?_, ?_, ?_⟩,
    ⟨hfollow, hterm, (hstore l hl).1, (hstore f hf).2⟩, rfl, hli, hfi,
    Replication.tied hc hl hlead hli hf hfi, by simp [Cluster.pair], by simp [Cluster.pair]⟩
  · show (c.node f).config.id < (c.node l).config.numNodes
    rw [hfid, hml.config, D.numNodes_eq]
    exact hf
  · show (c.node f).config.id ≠ (c.node l).config.id
    rwa [hfid, hlid]
  · show (c.node f).config.id < (c.node l).nextIndex.length
    rwa [hfid, hslots]
  · show (c.node l).nextIndex.getD (c.node f).config.id 0 ≤ (c.node l).store.log.length
    rw [hfid, List.getD_eq_getElem _ _ (by omega)]
    exact (hml.leader hlead).next _ (List.getElem_mem _)
  · show (c.node l).config.crashAfterH < 0
    rwa [hml.config]

namespace Pair

variable {t : ℕ} {p q : Pair} {ok : Pair → PairMove → Prop}

/-! ### Runs -/

theorem Runs.mono {ok' : Pair → PairMove → Prop} (h : Runs t ok p q) (hok : ∀ u m, ok u m → ok' u m) :
    Runs t ok' p q := by
  induction h with
  | start => exact .start
  | move _ hm hserved hs ih => exact .move ih hm (hok _ _ hserved) hs

/-- What a move may be to `LogShipping`. -/
inductive Does (t : ℕ) : PairMove → Op LogEntry → Prop
  | beat (input : Input) : Does t (.leader input) .beat
  | append (input : Input) {e : LogEntry} (he : e.term = t) : Does t (.leader input) (.append e)
  | refuse (input : Input) : Does t (.follower input) .refuse
  | receive (env : Env) : Does t (.request env) .receive
  | learn (env : Env) : Does t (.response env) .learn

theorem Sound.step (h : p.Sound t) {m : PairMove} (hm : p.Allows m) (hs : (p.move m).Steady t) :
    (p.move m).Sound t ∧ ((p.move m).view = p.view ∨
      ∃ op, Does t m op ∧ (p.move m).view = p.view.apply maxAppendEntriesN op) := by
  cases m with
  | leader input =>
      obtain ⟨hsound, hview | hview | ⟨e, he, hview⟩⟩ := h.leader hm hs
      · exact ⟨hsound, .inl hview⟩
      · exact ⟨hsound, .inr ⟨_, .beat input, hview⟩⟩
      · exact ⟨hsound, .inr ⟨_, .append input he, hview⟩⟩
  | follower input =>
      obtain ⟨hsound, hview | hview⟩ := h.follower hm hs
      · exact ⟨hsound, .inl hview⟩
      · exact ⟨hsound, .inr ⟨_, .refuse input, hview⟩⟩
  | request env =>
      obtain ⟨hsound, hview⟩ := h.request env
      exact ⟨hsound, .inr ⟨_, .receive env, hview⟩⟩
  | response env =>
      obtain ⟨hsound, hview⟩ := h.response env
      exact ⟨hsound, .inr ⟨_, .learn env, hview⟩⟩

theorem Sound.fresh (h : p.Sound t) {m : PairMove} {op : Op LogEntry} (hd : Does t m op) :
    p.view.Fresh op := by
  cases hd with
  | append _ he => exact h.tied.fresh he
  | _ => trivial

/-- A run of the pair is one of the source and its copy. -/
theorem Runs.simulates {R : State LogEntry → Op LogEntry → Prop} (h : Runs t ok p q)
    (hp : p.Sound t)
    (hR : ∀ {u : Pair} {m op}, u.Sound t → ok u m → Does t m op → R u.view op) :
    q.Sound t ∧ Run maxAppendEntriesN R p.view q.view := by
  induction h with
  | start => exact ⟨hp, .start⟩
  | move _ hm hok hs ih =>
      obtain ⟨hsound, hrun⟩ := ih
      obtain ⟨hsound', hview | ⟨op, hd, hview⟩⟩ := hsound.step hm hs
      · exact ⟨hsound', by rwa [hview]⟩
      · refine ⟨hsound', ?_⟩
        rw [hview]
        exact hrun.op op (hR hsound hok hd)

/-- The pair once the follower has handled `n` requests. -/
def handled (env : Env) : ℕ → Pair → Pair
  | 0, p => p
  | n + 1, p => handled env n (p.move (.request env))

/-- The pair once the follower has handled the requests under way. -/
def delivered (env : Env) (p : Pair) : Pair := handled env p.requests.length p

theorem Sound.handled (env : Env) : ∀ {p : Pair}, p.Sound t → ∀ n, p.requests.length = n →
    (handled env n p).Sound t ∧ (handled env n p).leader = p.leader ∧
      (handled env n p).follower.store.log = p.view.due
  | p, h, 0, hn => by
      have hnone : p.view.offers = [] := by
        rw [view, List.length_eq_zero_iff.mp hn, List.map_nil]
      have hdue : p.view.due = p.view.copy := by
        rw [State.due, hnone]
        rfl
      exact ⟨h, rfl, hdue.symm⟩
  | p, h, n + 1, hn => by
      obtain ⟨⟨req, late⟩, requests, hp⟩ := List.exists_cons_of_length_eq_add_one hn
      obtain ⟨hsound, hview⟩ := h.request env
      have hmove := move_request hp env
      have hlen : (p.move (.request env)).requests.length = n := by
        rw [hmove]
        rw [hp] at hn
        exact Nat.succ.inj hn
      have hlead : (p.move (.request env)).leader = p.leader := by
        rw [hmove, follows_leader]
      have hdue : (p.move (.request env)).view.due = p.view.due := by
        rw [hview, State.due_receive (view_offers_cons hp)]
      obtain ⟨hend, hleader, hlog⟩ := Sound.handled env hsound n hlen
      rw [← hlead, ← hdue]
      exact ⟨hend, hleader, hlog⟩

theorem Sound.delivered (h : p.Sound t) (env : Env) : (p.delivered env).Sound t ∧
    (p.delivered env).leader = p.leader ∧ (p.delivered env).follower.store.log = p.view.due :=
  Sound.handled env h _ rfl

/-! ### Once matched -/

/-- When the leader handles a success, the follower has the whole log of the leader, or
is going to have it once it has handled the requests under way. -/
def Covered (p : Pair) : PairMove → Prop
  | .response env => ∀ res responses, p.responses = res :: responses → res.success ≠ 0 →
      p.leader.store.log <+: (p.delivered env).follower.store.log
  | _ => True

theorem Sound.covered (h : p.Sound t) {m : PairMove} {op : Op LogEntry} (hok : p.Covered m)
    (hd : Does t m op) : p.view.Covered op := by
  cases hd with
  | learn env =>
      intro c answers hanswers
      obtain ⟨res, responses, hres, hans, -⟩ := List.map_eq_cons_iff.mp hanswers
      have hsuccess : res.success ≠ 0 := by
        intro hzero
        rw [answer, if_neg (not_not.mpr hzero)] at hans
        cases hans
      obtain ⟨-, -, hlog⟩ := h.delivered env
      rw [← hlog]
      exact hok res responses hres hsuccess
  | _ => trivial

theorem Sound.present_iff (h : p.Sound t) {req : AppendEntriesReq} (hreq : Carries t p.leader req)
    (late : Bool) : Node.PrevPresent p.follower.store.log req ↔
      Agrees p.leader.store.log p.follower.store.log (offer (req, late)).start := by
  obtain ⟨k, c, hdrawn⟩ := hreq
  rw [offer_drawn hdrawn h.leads.length, h.tied.present_iff hdrawn h.leads.length]

/-- A request that was built after a success is not rejected. -/
theorem Sound.late_passes (h : p.Sound t) (hstart : p.requests = [] ∧ p.matched = false)
    (hrun : Runs t Covered p q) {req : AppendEntriesReq} {requests : List (AppendEntriesReq × Bool)}
    (hq : q.requests = (req, true) :: requests) :
    Node.PrevPresent q.follower.store.log req := by
  obtain ⟨hnone, hfalse⟩ := hstart
  obtain ⟨hsound, hrun⟩ := hrun.simulates h fun hu hok hd => hu.covered hok hd
  have htracks : p.view.Tracks := by
    constructor
    · rw [show p.view.offers = [] by rw [view, hnone, List.map_nil]]
      trivial
    · intro hlate
      rw [show p.view.late = false from hfalse] at hlate
      cases hlate
  have hpass := (hrun.tracks h.sane htracks).passes
  rw [view_offers_cons hq] at hpass
  have hcarries := hsound.requests (req, true) (by rw [hq]; exact List.mem_cons_self)
  exact (hsound.present_iff hcarries true).mpr (hpass.1 rfl)

/-- The heartbeat that the leader would send next. -/
def heartbeat (p : Pair) : AppendEntriesReq :=
  p.leader.appendEntriesReqTo p.leader.store.currentTerm p.follower.config.id []

/-- After a success that comes too early a heartbeat is rejected again. -/
theorem Sound.heartbeat_passes_iff (h : p.Sound t) {res : AppendEntriesRes}
    {responses : List AppendEntriesRes} (hp : p.responses = res :: responses)
    (hs : res.success ≠ 0) (env : Env) :
    Node.PrevPresent ((p.move (.response env)).delivered env).follower.store.log
        (p.move (.response env)).heartbeat ↔
      p.leader.store.log <+: (p.delivered env).follower.store.log := by
  obtain ⟨hsound, hview⟩ := h.response env
  obtain ⟨-, -, hlog⟩ := h.delivered env
  have hanswers : p.view.answers = some (u32 (res.newMatchIndex + 1)) :: responses.map answer := by
    rw [view, hp, List.map_cons, answer, if_pos hs]
  rw [State.apply_learn_some hanswers] at hview
  generalize p.move (.response env) = q at hsound hview ⊢
  obtain ⟨hend, hleader, hlog'⟩ := hsound.delivered env
  have hsource : q.leader.store.log = p.leader.store.log := congrArg State.source hview
  have hnext : q.leader.nextIndex.getD q.follower.config.id 0 = q.leader.store.log.length := by
    rw [hsource]
    exact congrArg State.next hview
  have hdue : q.view.due = p.view.due := by
    rw [hview]
    rfl
  have hempty : [] = (q.leader.store.log.drop (q.leader.nextIndex.getD q.follower.config.id 0)).take
      (q.leader.store.log.length - q.leader.nextIndex.getD q.follower.config.id 0) := by
    rw [hnext, Nat.sub_self, List.take_zero]
  have hdrawn := Node.drawn_reqTo (t := t) hsound.leads.length hnext.le le_rfl hempty
  have htied := hend.tied
  rw [hleader] at htied
  rw [hnext] at hdrawn
  rw [heartbeat, hsound.term, htied.present_iff hdrawn hsound.leads.length, agrees_length_iff, hlog',
    hdue, ← hlog, hsource]

/-! ### Catching up -/

/-- The leader beats or gets one of the client requests. -/
def Served (reqs : List ProcReq) (_ : Pair) : PairMove → Prop
  | .leader (.timeout _) => True
  | .leader (.packet _ pkt) => ∃ call ∈ reqs, pkt.rpc = .procReq call
  | .follower _ => False
  | _ => True

theorem Sound.steady (h : p.Sound t) : p.Steady t :=
  ⟨h.leads.role, h.follows.role, h.term, h.follows.term, h.leads.length, h.follows.length⟩

/-- A leader that keeps its role, its term and its entries still leads. -/
theorem Sound.leaderOf (h : p.Sound t) {n : Node Disk} (hk : Node.Keeps p.leader n)
    (hterm : n.store.currentTerm = p.leader.store.currentTerm)
    (hroom : n.store.log.length < 2 ^ 31)
    (hle : p.leader.store.log.length ≤ n.store.log.length) :
    n.LeaderOf p.follower.config.id ∧ n.store.currentTerm = t :=
  ⟨h.leads.congr hk hterm hroom hle, hterm.trans h.term⟩

theorem Sound.beats (h : p.Sound t) (env : Env) : (p.move (.leader (.timeout env))).Sound t ∧
    (p.move (.leader (.timeout env))).view = p.view.apply maxAppendEntriesN .beat := by
  have hbeat := h.leads.timeout h.leaderIdle env
  have hidles : Node.Idles p.leader (p.leader.raftHandleTimeout env) := by
    have hrole := h.leads.role
    rcases Node.raftHandleTimeout_cases env p.leader with hidles | ⟨hr, -⟩ | ⟨hr, -⟩
    · exact hidles
    · rw [hrole] at hr
      cases hr
    · rw [hrole] at hr
      cases hr
  have hmove : p.move (.leader (.timeout env)) = p.leads (p.leader.raftHandleTimeout env) := rfl
  rw [hmove]
  generalize p.leader.raftHandleTimeout env = n at hbeat hidles ⊢
  obtain ⟨hl, hterm⟩ := h.leaderOf hidles.keeps hidles.quiet.currentTerm
    (by rw [hbeat.log]; exact h.leads.length) (by rw [hbeat.log])
  exact h.leads_beat hl hterm (hidles.keeps.samePlace _) hbeat

/-- A client request, on its way to the leader. -/
def clientPkt (p : Pair) (call : ProcReq) : Pkt := ⟨p.leader.config.id, call.clientId, .procReq call⟩

theorem allows_client (p : Pair) (env : Env) (call : ProcReq) :
    p.Allows (.leader (.packet env (p.clientPkt call))) :=
  ⟨fun _ hreq => (nomatch hreq), fun _ hres => (nomatch hres)⟩

theorem Sound.serves (h : p.Sound t) (env : Env) (call : ProcReq)
    (hroom : p.leader.store.log.length + 1 < 2 ^ 31) :
    (p.move (.leader (.packet env (p.clientPkt call)))).Sound t ∧
      (p.move (.leader (.packet env (p.clientPkt call)))).view =
        p.view.apply maxAppendEntriesN (.append (p.leader.entryOf call)) := by
  have hmove : p.move (.leader (.packet env (p.clientPkt call))) =
      p.leads (p.leader.handleProcRequest call call.clientId) := by
    have hdst : (p.clientPkt call).dst = p.leader.config.id := rfl
    rw [move, Node.handle, if_neg (not_not.mpr hdst)]
    rfl
  have hlog : (p.leader.handleProcRequest call call.clientId).store.log =
      p.leader.store.log ++ [p.leader.entryOf call] := by
    rw [Node.handleProcRequest_eq h.leads.term h.leads.role, Node.broadcastAppendEntries_store,
      Node.recordOutstanding_store, Node.appendLogEntry_store h.leads.length]
  have hlen : (p.leader.handleProcRequest call call.clientId).store.log.length =
      p.leader.store.log.length + 1 := by
    rw [hlog, List.length_append, List.length_singleton]
  have happ := h.leads.client h.leaderIdle call call.clientId (by rw [hlen]; exact hroom)
  have hidles := Node.handleProcRequest_idles p.leader call call.clientId
  rw [hmove]
  generalize p.leader.handleProcRequest call call.clientId = n at happ hidles hlen ⊢
  obtain ⟨hl, hterm⟩ := h.leaderOf hidles.keeps hidles.quiet.currentTerm (by omega) (by omega)
  exact h.leads_append hl hterm (hidles.keeps.samePlace _) h.term happ

theorem entryOf_congr {n n' : Node Disk} (h : n'.store.currentTerm = n.store.currentTerm)
    (call : ProcReq) : n'.entryOf call = n.entryOf call := by
  rw [Node.entryOf, Node.entryOf, h]

/-- What the source can do with the entries of some client requests, the pair can do. -/
theorem Sound.realizes (h : p.Sound t) {reqs : List ProcReq} {s : State LogEntry}
    (hrun : Run maxAppendEntriesN (Planned (reqs.map p.leader.entryOf)) p.view s)
    (hroom : s.source.length < 2 ^ 31) :
    ∃ q, Runs t (Served reqs) p q ∧ q.Sound t ∧ q.view = s := by
  induction hrun with
  | start => exact ⟨p, .start, h, rfl⟩
  | @op s hrun op hplan ih =>
      obtain ⟨u, hruns, hsound, hview⟩ := ih ((s.length_source_le_apply op).trans_lt hroom)
      -- a move that does this is enough
      have hdone : ∀ m, u.Allows m → Served reqs u m → (u.move m).Sound t ∧
          (u.move m).view = u.view.apply maxAppendEntriesN op →
          ∃ q, Runs t (Served reqs) p q ∧ q.Sound t ∧ q.view = s.apply maxAppendEntriesN op := by
        rintro m hm hserved ⟨hs, hv⟩
        exact ⟨u.move m, .move hruns hm hserved hs.steady, hs, by rw [hv, hview]⟩
      cases op with
      | beat => exact hdone (.leader (.timeout ⟨0, 0⟩)) trivial trivial (hsound.beats _)
      | append e =>
          obtain ⟨call, hcall, rfl⟩ := List.mem_map.mp hplan
          have hlen : u.leader.store.log.length + 1 < 2 ^ 31 := by
            rw [show u.leader.store.log = s.source from congrArg State.source hview]
            rw [State.apply, List.length_append] at hroom
            exact hroom
          have hserves := hsound.serves ⟨0, 0⟩ call hlen
          rw [entryOf_congr (hsound.term.trans h.term.symm)] at hserves
          exact hdone _ (u.allows_client ⟨0, 0⟩ call) ⟨call, hcall, rfl⟩ hserves
      | receive => exact hdone (.request ⟨0, 0⟩) trivial trivial (hsound.request _)
      | learn => exact hdone (.response ⟨0, 0⟩) trivial trivial (hsound.response _)
      | refuse => exact hplan.elim

theorem Sound.caught_up_iff (h : p.Sound t) (hrest : p.requests = [] ∧ p.responses = [])
    (reqs : List ProcReq) (hroom : p.leader.store.log.length + reqs.length < 2 ^ 31)
    (hok : ∀ u m, Served reqs u m → ok u m) :
    (∃ q, Runs t ok p q ∧ q.leader.store.log = p.leader.store.log ++ reqs.map p.leader.entryOf ∧
      q.leader.store.log <+: q.follower.store.log) ↔
      Agrees p.leader.store.log p.follower.store.log
        (p.leader.store.log.length - (maxAppendEntriesN - 1) * reqs.length) := by
  obtain ⟨hreqs, hress⟩ := hrest
  have hoffers : p.view.offers = [] := by rw [view, hreqs, List.map_nil]
  have hanswers : p.view.answers = [] := by rw [view, hress, List.map_nil]
  constructor
  · rintro ⟨q, hruns, hlog, hprefix⟩
    obtain ⟨-, hrun⟩ := hruns.simulates h fun hu _ hd => hu.fresh hd
    obtain ⟨es, hes, hagr⟩ := hrun.agrees hoffers
    have hes : q.leader.store.log = p.leader.store.log ++ es := hes
    have hlen : es.length = reqs.length := by
      rw [List.append_cancel_left (hes.symm.trans hlog), List.length_map]
    have hall := hagr _ (agrees_length_iff.mpr hprefix)
    refine hall.mono (le_of_eq ?_)
    show _ = q.leader.store.log.length - maxAppendEntriesN * es.length
    rw [hlog, List.length_append, List.length_map, hlen, Nat.sub_mul, maxAppendEntriesN]
    omega
  · intro hagr
    have hplan : Agrees p.view.source p.view.copy (p.view.source.length -
        (maxAppendEntriesN - 1) * (reqs.map p.leader.entryOf).length) := by
      rwa [List.length_map]
    obtain ⟨s, hrun, hsource, hprefix⟩ :=
      exists_caught_up (by decide) ⟨hoffers, hanswers⟩ hplan
    have hlen : s.source.length = p.leader.store.log.length + reqs.length := by
      rw [hsource, List.length_append, List.length_map]
      rfl
    obtain ⟨q, hruns, -, rfl⟩ := h.realizes hrun (by omega)
    exact ⟨q, hruns.mono hok, hsource, hprefix⟩

end Pair

namespace Couple

variable {D : Deployment} {c : Cluster} {l f : ℕ}

/-- However busy the two are otherwise: a follower can be brought up to date with some
client requests just if it lacks at most 31 entries for each of them. -/
theorem catch_up_iff (h : Couple D c l f) (reqs : List ProcReq)
    (hroom : (c.node l).store.log.length + reqs.length < 2 ^ 31) {ok : Pair → PairMove → Prop}
    (hok : ∀ p m, Pair.Served reqs p m → ok p m) :
    (∃ q, Pair.Runs (c.node l).store.currentTerm ok (c.pair l f) q ∧
      q.leader.store.log = (c.node l).store.log ++ reqs.map (c.node l).entryOf ∧
      q.leader.store.log <+: q.follower.store.log) ↔
      Agrees (c.node l).store.log (c.node f).store.log
        ((c.node l).store.log.length - (maxAppendEntriesN - 1) * reqs.length) :=
  h.sound.caught_up_iff ⟨rfl, rfl⟩ reqs hroom hok

/-- Node 0 of three nodes is elected in term 1 by node 2. -/
def elected : List Action :=
  [.timeout 0 ⟨0, 0⟩] ++ Action.execs 0 4 ++ [.deliver 1 ⟨0, 0⟩] ++ Action.execs 2 5 ++
  [.deliver 2 ⟨0, 0⟩] ++ Action.execs 0 3

/-- What of a couple can be read off the two nodes. -/
abbrev Seen (c : Cluster) (l f : ℕ) : Prop :=
  (c.node l).role = .leader ∧ (c.node f).role = .follower ∧ (c.node l).script = [] ∧
    (c.node f).script = [] ∧ (c.node l).store.currentTerm = 1 ∧ (c.node f).store.currentTerm = 1

theorem of_seen {c : Cluster} (hc : Cluster.Reachable (.plain 3 (by decide)) c) (h : Seen c 0 2) :
    Couple (.plain 3 (by decide)) c 0 2 := by
  obtain ⟨hlead, hfollow, hli, hfi, htl, htf⟩ := h
  exact ⟨hc, by decide, by decide, hlead, hfollow, hli, hfi, htf.trans htl.symm, by decide⟩

/-- Node 0 has an entry that node 2 lacks, and with one more client request node 2 gets both. -/
theorem catch_up_iff_one : ∃ c, Couple (.plain 3 (by decide)) c 0 2 ∧
    (c.node 0).store.log = [⟨1, 9, 1, 7⟩] ∧ (c.node 2).store.log = [] ∧
    ∃ q, Pair.Runs (c.node 0).store.currentTerm (Pair.Served [⟨9, 2, 8⟩]) (c.pair 0 2) q ∧
      q.leader.store.log = (c.node 0).store.log ++ [(c.node 0).entryOf ⟨9, 2, 8⟩] ∧
      q.leader.store.log <+: q.follower.store.log := by
  have hrun : ∃ c, Cluster.Reachable (.plain 3 (by decide)) c ∧ Seen c 0 2 ∧
      (c.node 0).store.log = [⟨1, 9, 1, 7⟩] ∧ (c.node 2).store.log = [] :=
    Cluster.Run.exists_of_actions (P := fun c => Seen c 0 2 ∧
      (c.node 0).store.log = [⟨1, 9, 1, 7⟩] ∧ (c.node 2).store.log = [])
      (elected ++ [.client 0 9 ⟨9, 1, 7⟩] ++ Action.execs 0 3) (by decide +kernel)
  obtain ⟨c, hc, hseen, hL, hF⟩ := hrun
  have h := of_seen hc hseen
  refine ⟨c, h, hL, hF, ?_⟩
  refine (h.catch_up_iff [⟨9, 2, 8⟩] (by rw [hL]; decide) fun _ _ hm => hm).mpr ?_
  rw [hL, hF]
  exact agrees_zero _ _

/-- Without a client request a follower gets nothing. -/
theorem catch_up_beats_iff (h : Couple D c l f) {ok : Pair → PairMove → Prop}
    (hok : ∀ p m, Pair.Served [] p m → ok p m) :
    (∃ q, Pair.Runs (c.node l).store.currentTerm ok (c.pair l f) q ∧
      q.leader.store.log = (c.node l).store.log ∧ q.leader.store.log <+: q.follower.store.log) ↔
      (c.node l).store.log <+: (c.node f).store.log := by
  have hiff := h.sound.caught_up_iff ⟨rfl, rfl⟩ [] h.sound.leads.length hok
  rw [List.map_nil, List.append_nil] at hiff
  exact hiff.trans agrees_length_iff

/-- Once matched, never rejected, as long as each success the leader handles comes when
the follower has all there is, or is about to get it; and if one does not, the next
heartbeat is rejected. -/
theorem matched_passes (h : Couple D c l f) {q : Pair}
    (hrun : Pair.Runs (c.node l).store.currentTerm Pair.Covered (c.pair l f) q) :
    (∀ req requests, q.requests = (req, true) :: requests →
      Node.PrevPresent q.follower.store.log req) ∧
    ∀ res responses env, q.responses = res :: responses → res.success ≠ 0 →
      (Node.PrevPresent ((q.move (.response env)).delivered env).follower.store.log
          (q.move (.response env)).heartbeat ↔
        q.leader.store.log <+: (q.delivered env).follower.store.log) := by
  refine ⟨fun req requests hq => h.sound.late_passes ⟨rfl, rfl⟩ hrun hq,
    fun res responses env hq hs => ?_⟩
  obtain ⟨hsound, -⟩ := hrun.simulates (R := fun _ _ => True) h.sound fun _ _ _ => trivial
  exact hsound.heartbeat_passes_iff hq hs env

/-- Node 2 accepts an entry of node 0, which then builds a request for the next one. -/
theorem matched_passes_one : ∃ c q req, Couple (.plain 3 (by decide)) c 0 2 ∧
    Pair.Runs (c.node 0).store.currentTerm Pair.Covered (c.pair 0 2) q ∧
    q.requests = [(req, true)] ∧ req.prevLogIdx = 0 ∧
    Node.PrevPresent q.follower.store.log req := by
  let first (c : Cluster) : Pair :=
    (c.pair 0 2).move (.leader (.packet ⟨0, 0⟩ ((c.pair 0 2).clientPkt ⟨9, 1, 7⟩)))
  let stored (c : Cluster) : Pair := (first c).move (.request ⟨0, 0⟩)
  let learnt (c : Cluster) : Pair := (stored c).move (.response ⟨0, 0⟩)
  let second (c : Cluster) : Pair :=
    (learnt c).move (.leader (.packet ⟨0, 0⟩ ((learnt c).clientPkt ⟨9, 2, 8⟩)))
  have hrun : ∃ c, Cluster.Reachable (.plain 3 (by decide)) c ∧ Seen c 0 2 ∧ (first c).Steady 1 ∧
      (stored c).Steady 1 ∧ (learnt c).Steady 1 ∧ (second c).Steady 1 ∧
      (stored c).leader.store.log = ((stored c).delivered ⟨0, 0⟩).follower.store.log ∧
      (second c).requests.map (fun r => (r.1.prevLogIdx, r.2)) = [(0, true)] :=
    Cluster.Run.exists_of_actions (P := fun c => Seen c 0 2 ∧ (first c).Steady 1 ∧
      (stored c).Steady 1 ∧ (learnt c).Steady 1 ∧ (second c).Steady 1 ∧
      (stored c).leader.store.log = ((stored c).delivered ⟨0, 0⟩).follower.store.log ∧
      (second c).requests.map (fun r => (r.1.prevLogIdx, r.2)) = [(0, true)])
      elected (by decide +kernel)
  obtain ⟨c, hc, hseen, hs₁, hs₂, hs₃, hs₄, hcovered, hreqs⟩ := hrun
  have h := of_seen hc hseen
  have hone : (c.node 0).store.currentTerm = 1 := hseen.2.2.2.2.1
  have hruns : Pair.Runs (c.node 0).store.currentTerm Pair.Covered (c.pair 0 2) (second c) := by
    rw [hone]
    have hfirst : Pair.Runs 1 Pair.Covered (c.pair 0 2) (first c) :=
      .move .start (Pair.allows_client _ _ _) trivial hs₁
    have hstored : Pair.Runs 1 Pair.Covered (c.pair 0 2) (stored c) :=
      .move (m := .request ⟨0, 0⟩) hfirst trivial trivial hs₂
    have hlearnt : Pair.Runs 1 Pair.Covered (c.pair 0 2) (learnt c) :=
      .move (m := .response ⟨0, 0⟩) hstored trivial
        (fun _ _ _ _ => hcovered ▸ List.prefix_rfl) hs₃
    exact .move hlearnt (Pair.allows_client _ _ _) trivial hs₄
  obtain ⟨⟨req, late⟩, hq, hreq⟩ := List.map_eq_singleton_iff.mp hreqs
  obtain ⟨hidx, hlate⟩ := Prod.mk.inj hreq
  have hlate : late = true := hlate
  subst hlate
  exact ⟨c, second c, req, h, hruns, hq, hidx, (h.matched_passes hruns).1 req [] hq⟩

end Couple

end GeoRaft
