import Mathlib.Data.Finset.Card
import Mathlib.Data.Finset.Range
import GeoRaft.Node.Handlers
import GeoRaft.Node.Lives

/-!
The votes a candidate counts.

`votes_received` is a plain counter: every vote of its own term that a candidate
gets raises it, whoever the vote is from. It counts voters as long as the votes
come from different members of the cluster, none of them the candidate.
-/

namespace GeoRaft

open Word

/-- The sender of a vote that a candidate counts. -/
def Heard.vote (h : Heard) : Option ℕ :=
  match h.pkt.rpc with
  | .requestVoteRes resp =>
    if h.role = .candidate ∧ resp.term = h.term ∧ resp.voteGranted ≠ 0 then some h.pkt.src
    else none
  | _ => none

/-- The senders of the votes counted in the candidacy of term `t`. -/
def voters (heard : List Heard) (t : ℕ) : List ℕ :=
  heard.filterMap fun h => if h.term = t then h.vote else none

/-- The members of the cluster that voted for the candidate of term `t`, counting itself. -/
def granters (config : Config) (heard : List Heard) (t : ℕ) : Finset ℕ :=
  insert config.id ((Finset.range config.numNodes).filter (· ∈ voters heard t))

/-- A vote that the move has the node count is from another member of the cluster
that has not been counted in this candidacy. -/
def NewVoter (config : Config) (l : Life) (m : Move) : Prop :=
  ∀ h ∈ (l.hearing m.input).toList, ∀ v ∈ h.vote.toList,
    v < config.numNodes ∧ v ≠ config.id ∧ v ∉ voters l.heard h.term

instance (config : Config) (l : Life) (m : Move) : Decidable (NewVoter config l m) :=
  inferInstanceAs (Decidable (∀ h ∈ (l.hearing m.input).toList, _))

namespace Node

variable {n n' : Node Disk}

/-- No election is won here. -/
structure Mute (n n' : Node Disk) : Prop where
  config : n'.config = n.config
  won : ∀ t, .note (.becameLeader t) ∈ n'.script → .note (.becameLeader t) ∈ n.script

theorem Mute.refl (n : Node Disk) : Mute n n := ⟨rfl, fun _ => id⟩

theorem Mute.trans {n n' n'' : Node Disk} (h : Mute n n') (h' : Mute n' n'') : Mute n n'' :=
  ⟨h'.config.trans h.config, fun t ht => h.won t (h'.won t ht)⟩

theorem set_mute (n : Node Disk) (f : PersistentField) (v : ℕ) (event : Option Event) :
    Mute n (n.set f v event) :=
  ⟨rfl, fun t ht => by simpa [set] using ht⟩

theorem send_mute (n : Node Disk) (dst : ℕ) (rpc : Rpc) : Mute n (n.send dst rpc) :=
  ⟨rfl, fun t ht => by simpa [Node.send] using ht⟩

theorem setElectionTimer_mute (env : Env) (n : Node Disk) : Mute n (n.setElectionTimer env) :=
  ⟨rfl, fun _ => id⟩

theorem votesReceived_mute (n : Node Disk) (votes : ℕ) : Mute n { n with votesReceived := votes } :=
  ⟨rfl, fun _ => id⟩

/-- Nor is a vote counted. -/
structure Calm (n n' : Node Disk) : Prop where
  mute : Mute n n'
  votes : n'.role = .candidate → n'.votesReceived ≤ 1 ∨
    n.role = .candidate ∧ n'.store.currentTerm = n.store.currentTerm ∧
      n'.votesReceived = n.votesReceived

theorem Calm.refl (n : Node Disk) : Calm n n := ⟨.refl n, fun h => .inr ⟨h, rfl, rfl⟩⟩

theorem Calm.trans {n n' n'' : Node Disk} (h : Calm n n') (h' : Calm n' n'') : Calm n n'' where
  mute := h.mute.trans h'.mute
  votes hr := by
    rcases h'.votes hr with hle | ⟨hr', ht', hv'⟩
    · exact .inl hle
    · rw [ht', hv']
      exact h.votes hr'

/-- A change of the memory that leaves the candidacy alone. -/
theorem Calm.mem (hc : n'.config = n.config) (hs : n'.script = n.script) (hd : n'.store = n.store)
    (hr : n'.role = n.role) (hv : n'.votesReceived = n.votesReceived) : Calm n n' :=
  ⟨⟨hc, fun _ ht => hs ▸ ht⟩, fun h => .inr ⟨hr ▸ h, by rw [hd], hv⟩⟩

theorem Quiet.note_mem {e : Event} (he : e.Electoral) (h : Quiet n n')
    (hmem : .note e ∈ n'.script) : .note e ∈ n.script := by
  induction h with
  | refl => exact hmem
  | tail _ hs ih =>
      apply ih
      cases hs with
      | mem hs => exact hs ▸ hmem
      | put => simpa using hmem
      | send => simpa [Node.send] using hmem
      | note hne =>
          rcases List.mem_append.mp hmem with hmem | hmem
          · exact hmem
          · obtain rfl := Effect.note.inj (List.mem_singleton.mp hmem)
            exact absurd he hne
      | exit => simpa using hmem

theorem Idles.calm (h : Idles n n') : Calm n n' where
  mute := ⟨h.keeps.config, fun _ => h.quiet.note_mem trivial⟩
  votes hr := .inr ⟨h.keeps.role ▸ hr, h.quiet.currentTerm, h.keeps.votesReceived⟩

theorem becomeFollower_calm (env : Env) (n : Node Disk) (term leaderId : ℕ) :
    Calm n (n.becomeFollower env term leaderId) where
  mute := by
    refine ⟨rfl, fun t ht => ?_⟩
    have hscript : (n.becomeFollower env term leaderId).script =
        n.script ++ [.note (.becameFollower term)] ++
          [.store (Storage.set .currentTerm term n.store).2 none] ++
          [.store (Storage.set .votedFor pfNoVote (Storage.set .currentTerm term n.store).2).2 none] :=
      rfl
    rw [hscript] at ht
    simpa using ht
  votes hr := by cases hr

theorem grant_calm (env : Env) (n : Node Disk) (curTerm : ℕ) (req : RequestVoteReq) :
    Calm n (n.grant env curTerm req) := by
  have hset : Calm n (n.set .votedFor req.candidateId (some (.vote curTerm req.candidateId))) :=
    ⟨set_mute n _ _ _, fun hr => .inr ⟨hr, rfl, rfl⟩⟩
  unfold grant
  generalize n.set .votedFor req.candidateId (some (.vote curTerm req.candidateId)) = m at hset ⊢
  refine hset.trans ⟨(setElectionTimer_mute env m).trans (send_mute _ _ _), fun hr => ?_⟩
  exact .inr ⟨hr, rfl, rfl⟩

theorem decideVote_calm (env : Env) (n : Node Disk) {curTerm : ℕ}
    (h : curTerm ≤ n.store.currentTerm) (req : RequestVoteReq) :
    Calm n (n.decideVote env curTerm req) := by
  rcases decideVote_cases env n h req with hidle | heq
  · exact hidle.calm
  · rw [heq]
    exact grant_calm env n curTerm req

theorem broadcastRequestVote_mute (n : Node Disk) : Mute n n.broadcastRequestVote := by
  refine ⟨(broadcastRequestVote_keeps n).config, fun t ht => ?_⟩
  unfold broadcastRequestVote at ht
  dsimp only at ht
  split at ht
  · exact ht
  · refine forOthers_induct
      (motive := fun _ m => .note (.becameLeader t) ∈ m.script → .note (.becameLeader t) ∈ n.script)
      n id (fun k m _ hm => ?_) ht
    split
    · exact hm
    · exact fun h => hm (by simpa [Node.send] using h)

/-- A candidate that stands begins with its own vote. -/
theorem startElection_calm (env : Env) (n : Node Disk) : Calm n (n.startElection env) := by
  unfold startElection
  dsimp only
  split
  · exact .refl n
  · refine ⟨?_, fun _ => .inl ?_⟩
    · refine Mute.trans ?_ (broadcastRequestVote_mute _)
      refine Mute.trans ?_ (setElectionTimer_mute env _)
      exact ((set_mute n _ _ _).trans (set_mute _ _ _ _)).trans (votesReceived_mute _ 1)
    · rw [(broadcastRequestVote_keeps _).votesReceived]
      exact le_rfl

theorem becomeCandidate_calm (env : Env) (n : Node Disk) : Calm n (n.becomeCandidate env) := by
  unfold becomeCandidate
  dsimp only
  refine Calm.trans ?_ (startElection_calm env _)
  exact ⟨⟨rfl, fun _ => id⟩, fun _ => .inl (Nat.zero_le _)⟩

/-- What an input does: nothing to the elections the node stands in, or one more vote. -/
theorem handle_cases (n : Node Disk) {input : Input} (hwf : input.WellFormed) :
    Calm n (n.handle input) ∨
    ∃ env pkt resp, input = .packet env pkt ∧ pkt.dst = n.config.id ∧ n.role = .candidate ∧
      pkt.rpc = .requestVoteRes resp ∧ resp.term = u32 (n.get .currentTerm) ∧
      resp.voteGranted ≠ 0 ∧ n.handle input =
        if n.countVote.votesReceived > n.config.numNodes / 2 then n.countVote.becomeLeader env
        else n.countVote := by
  cases input with
  | timeout env =>
      refine .inl ?_
      rw [handle]
      rcases raftHandleTimeout_cases env n with hidle | ⟨-, heq⟩ | ⟨-, heq⟩
      · exact hidle.calm
      · rw [heq]
        exact becomeCandidate_calm env n
      · rw [heq]
        exact startElection_calm env n
  | packet env pkt =>
      rw [handle]
      split
      · exact .inl (.refl n)
      · rename_i hdst
        rw [raftHandleRpc]
        cases hrpc : pkt.rpc with
        | appendEntriesReq req =>
            have hreq : req.term < 2 ^ 32 := by
              rw [Input.WellFormed, hrpc] at hwf
              exact hwf.1
            refine .inl ?_
            dsimp only
            rcases handleAppendEntriesRequest_cases env n hreq with hidle | ⟨-, hidle⟩ | ⟨-, -, hidle⟩
            · exact hidle.calm
            · exact (becomeFollower_calm env n _ _).trans hidle.calm
            · have hmem : Calm n { n with leaderId := req.leaderId } :=
                .mem rfl rfl rfl rfl rfl
              exact hmem.trans hidle.calm
        | appendEntriesRes resp =>
            refine .inl ?_
            dsimp only
            rcases handleAppendEntriesResponse_cases env n pkt.src resp with
              ⟨-, heq⟩ | heq | ⟨-, -, ⟨-, hidle⟩ | ⟨-, -, heq⟩⟩
            · rw [heq]
              exact becomeFollower_calm env n _ _
            · rw [heq]
              exact .refl n
            · have hmem : Calm n (n.credit pkt.src resp) :=
                .mem rfl rfl rfl rfl rfl
              exact hmem.trans hidle.calm
            · rw [heq]
              exact .mem rfl rfl rfl rfl rfl
        | requestVoteReq req =>
            refine .inl ?_
            dsimp only
            rcases handleRequestVoteRequest_cases env n pkt.src req with hidle | ⟨-, heq⟩ | ⟨ht, heq⟩
            · exact hidle.calm
            · rw [heq]
              refine (becomeFollower_calm env n _ _).trans (decideVote_calm env _ ?_ req)
              have hreq : req.term < 2 ^ 32 := by
                rw [Input.WellFormed, hrpc] at hwf
                exact hwf.1
              show req.term ≤ u32 req.term
              rw [u32_of_nat hreq]
            · rw [heq]
              exact decideVote_calm env n (ht ▸ n.get_currentTerm_le) req
        | requestVoteRes resp =>
            dsimp only
            rcases handleRequestVoteResponse_cases env n pkt.src resp with
              heq | ⟨-, -, heq⟩ | ⟨hr, ht, hg, heq⟩
            · rw [heq]
              exact .inl (.refl n)
            · rw [heq]
              exact .inl (becomeFollower_calm env n _ _)
            · exact .inr ⟨env, pkt, resp, rfl, not_not.mp hdst, hr, hrpc, ht, hg, heq⟩
        | procReq req => exact .inl (handleProcRequest_idles n req pkt.src).calm
        | procRes resp => exact .inl (.refl n)

theorem becomeLeader_role (env : Env) (n : Node Disk) : (n.becomeLeader env).role = .leader := by
  unfold becomeLeader
  dsimp only
  rw [(sendHeartbeats_keeps _).role]
  rfl

theorem becomeLeader_config (env : Env) (n : Node Disk) :
    (n.becomeLeader env).config = n.config := by
  unfold becomeLeader
  dsimp only
  rw [(sendHeartbeats_keeps _).config]
  rfl

/-- The term a leader is said to lead is the one it read. -/
theorem becomeLeader_note {env : Env} {t : ℕ} (h : .note (.becameLeader t) ∈ (n.becomeLeader env).script) :
    .note (.becameLeader t) ∈ n.script ∨ t = u32 (n.get .currentTerm) := by
  unfold becomeLeader at h
  dsimp only at h
  have hnote : .note (.becameLeader t) ∈
      (n.note (.becameLeader (u32 (n.get .currentTerm)))).script := by
    have hq := (sendHeartbeats_quiet _).note_mem (e := .becameLeader t) trivial h
    exact hq
  rcases List.mem_append.mp hnote with hmem | hmem
  · exact .inl hmem
  · exact .inr (Event.becameLeader.inj (Effect.note.inj (List.mem_singleton.mp hmem)))

theorem handle_config (n : Node Disk) {input : Input} (hwf : input.WellFormed) :
    (n.handle input).config = n.config := by
  rcases handle_cases n hwf with hcalm | ⟨env, pkt, resp, -, -, -, -, -, -, heq⟩
  · exact hcalm.mute.config
  · rw [heq]
    split
    · exact becomeLeader_config env _
    · rfl

end Node

/-! ### A whole life -/

variable {config : Config} {l : Life} {t : ℕ}

theorem voters_append (heard heard' : List Heard) (t : ℕ) :
    voters (heard ++ heard') t = voters heard t ++ voters heard' t := by
  simp [voters]

/-- The voters of every candidacy are different members of the cluster, and the
candidate has counted no more votes than voters and itself. -/
structure Polled (config : Config) (l : Life) : Prop where
  config_eq : l.node.config = config
  nodup : ∀ t, (voters l.heard t).Nodup
  member : ∀ t, ∀ v ∈ voters l.heard t, v < config.numNodes ∧ v ≠ config.id
  count : l.node.role = .candidate →
    l.node.votesReceived ≤ (voters l.heard (u32 (l.node.get .currentTerm))).length + 1

/-- What is heard in a move adds at most one voter, a new one, to one candidacy. -/
theorem voters_hearing (l : Life) (input : Input) (t : ℕ) :
    voters (l.hearing input).toList t = [] ∨ ∃ h v, (l.hearing input).toList = [h] ∧ h.term = t ∧
      h.vote.toList = [v] ∧ voters (l.hearing input).toList t = [v] := by
  cases hh : l.hearing input with
  | none => exact .inl rfl
  | some h =>
      by_cases ht : h.term = t
      · cases hv : h.vote with
        | none => exact .inl (by simp [voters, ht, hv])
        | some v => exact .inr ⟨h, v, rfl, ht, by simp [hv], by simp [voters, ht, hv]⟩
      · exact .inl (by simp [voters, ht])

theorem Polled.voters_move (h : Polled config l) {m : Move} (hnew : NewVoter config l m) (t : ℕ) :
    (voters (l.heard ++ (l.hearing m.input).toList) t).Nodup ∧
      ∀ v ∈ voters (l.heard ++ (l.hearing m.input).toList) t, v < config.numNodes ∧ v ≠ config.id := by
  rw [voters_append]
  rcases voters_hearing l m.input t with hnil | ⟨hd, v, hhd, ht, hv, heq⟩
  · rw [hnil, List.append_nil]
    exact ⟨h.nodup t, h.member t⟩
  · obtain ⟨hlt, hne, hnotin⟩ := hnew hd (by rw [hhd]; simp) v (by rw [hv]; simp)
    rw [heq]
    rw [ht] at hnotin
    refine ⟨?_, fun u hu => ?_⟩
    · rw [List.nodup_append]
      exact ⟨h.nodup t, List.nodup_singleton v, fun a ha b hb => by
        rintro rfl
        exact hnotin (List.mem_singleton.mp hb ▸ ha)⟩
    · rcases List.mem_append.mp hu with hu | hu
      · exact h.member t u hu
      · rw [List.mem_singleton.mp hu]
        exact ⟨hlt, hne⟩

/-- The voter of a vote that is counted. -/
theorem voters_counted (env : Env) {pkt : Pkt} {resp : RequestVoteRes}
    (hdst : pkt.dst = l.node.config.id) (hr : l.node.role = .candidate)
    (hrpc : pkt.rpc = .requestVoteRes resp) (ht : resp.term = u32 (l.node.get .currentTerm))
    (hg : resp.voteGranted ≠ 0) :
    voters (l.hearing (.packet env pkt)).toList (u32 (l.node.get .currentTerm)) = [pkt.src] := by
  simp [Life.hearing, hdst, voters, Heard.vote, hr, hrpc, ht, hg]

theorem Polled.move (h : Polled config l) {m : Move} (hwf : m.input.WellFormed)
    (hnew : NewVoter config l m) : Polled config (l.move config m) := by
  have hvoters := h.voters_move hnew
  have hcases := Node.handle_cases l.node hwf
  cases m with
  | crash input k =>
      exact ⟨rfl, fun t => (hvoters t).1, fun t => (hvoters t).2, fun hr => by cases hr⟩
  | run input =>
      suffices hnode : (l.node.handle input).config = config ∧
          ((l.node.handle input).role = .candidate → (l.node.handle input).votesReceived ≤
            (voters (l.heard ++ (l.hearing input).toList)
              (u32 ((l.node.handle input).get .currentTerm))).length + 1) by
        refine ⟨?_, fun t => (hvoters t).1, fun t => (hvoters t).2, ?_⟩
        all_goals
          unfold Life.move
          dsimp only
          split
        · rfl
        · exact hnode.1
        · exact fun hr => by cases hr
        · exact hnode.2
      dsimp only [Move.input] at hcases
      rcases hcases with hcalm | ⟨env, pkt, resp, rfl, hdst, hr, hrpc, ht, hg, heq⟩
      · refine ⟨hcalm.mute.config.trans h.config_eq, fun hr => ?_⟩
        rcases hcalm.votes hr with hle | ⟨hr', hterm, hv⟩
        · omega
        · have hcount := h.count hr'
          rw [Node.get_currentTerm] at hcount ⊢
          rw [hterm, hv, voters_append, List.length_append]
          omega
      · have hcount := h.count hr
        have hone := voters_counted env hdst hr hrpc ht hg
        rw [heq]
        split
        · refine ⟨(Node.becomeLeader_config env _).trans h.config_eq, fun hr' => ?_⟩
          rw [Node.becomeLeader_role] at hr'
          cases hr'
        · refine ⟨h.config_eq, fun _ => ?_⟩
          show l.node.votesReceived + 1 ≤ (voters (l.heard ++ (l.hearing (.packet env pkt)).toList)
            (u32 (l.node.get .currentTerm))).length + 1
          rw [voters_append, hone, List.length_append, List.length_singleton]
          omega

theorem Lives.polled (hl : Lives config (NewVoter config) l) : Polled config l :=
  hl.invariant ⟨rfl, fun _ => List.nodup_nil, fun _ _ hv => absurd hv List.not_mem_nil,
    fun hr => by cases hr⟩ fun _ h hwf hok => h.move hwf hok

/-- Different members, none of them the candidate, are as many voters as votes. -/
theorem card_granters {heard : List Heard} (hnodup : (voters heard t).Nodup)
    (hmember : ∀ v ∈ voters heard t, v < config.numNodes ∧ v ≠ config.id) :
    (granters config heard t).card = (voters heard t).length + 1 := by
  have hset : (Finset.range config.numNodes).filter (· ∈ voters heard t) =
      (voters heard t).toFinset := by
    ext v
    simp only [Finset.mem_filter, Finset.mem_range, List.mem_toFinset]
    exact ⟨fun h => h.2, fun h => ⟨(hmember v h).1, h⟩⟩
  rw [granters, hset, Finset.card_insert_of_notMem, List.toFinset_card_of_nodup hnodup]
  intro hmem
  exact (hmember _ (List.mem_toFinset.mp hmem)).2 rfl

/-- A node that becomes a leader was voted for by a majority of the cluster, in every
life in which it counts each vote of another member once. -/
theorem win_needs_majority (hl : Lives config (NewVoter config) l) {m : Move}
    (hwf : m.input.WellFormed) (hnew : NewVoter config l m)
    (hwin : .note (.becameLeader t) ∈ (l.node.handle m.input).script) :
    config.numNodes / 2 < (granters config (l.heard ++ (l.hearing m.input).toList) t).card := by
  have hpolled := hl.polled
  obtain ⟨hnodup, hmember⟩ := hpolled.voters_move hnew t
  rw [card_granters hnodup hmember]
  rcases Node.handle_cases l.node hwf with hcalm | ⟨env, pkt, resp, hin, hdst, hr, hrpc, ht, hg, heq⟩
  · have hmem := hcalm.mute.won t hwin
    rw [hl.idle] at hmem
    cases hmem
  · rw [heq] at hwin
    split at hwin
    · rename_i hvotes
      have hterm : t = u32 (l.node.get .currentTerm) := by
        rcases Node.becomeLeader_note hwin with hmem | hterm
        · have hidle : l.node.countVote.script = [] := hl.idle
          rw [hidle] at hmem
          cases hmem
        · exact hterm
      have hcount := hpolled.count hr
      have hone := voters_counted env hdst hr hrpc ht hg
      have hvotes' : l.node.votesReceived + 1 > config.numNodes / 2 := hpolled.config_eq ▸ hvotes
      rw [hin, hterm, voters_append, hone, List.length_append, List.length_singleton]
      omega
    · have hidle : l.node.countVote.script = [] := hl.idle
      rw [hidle] at hwin
      cases hwin

/-- Node 0 of three stands and is told of node 1's vote. -/
theorem win_needs_majority_three :
    ∃ l, Lives (.plain 3 0) (NewVoter (.plain 3 0)) l ∧
      1 < (granters (.plain 3 0) (l.heard ++
        (l.hearing (.packet ⟨0, 0⟩ ⟨0, 1, .requestVoteRes ⟨1, 1⟩⟩)).toList) 1).card := by
  have hlife : ∃ l, Lives (.plain 3 0) (NewVoter (.plain 3 0)) l ∧
      NewVoter (.plain 3 0) l (.run (.packet ⟨0, 0⟩ ⟨0, 1, .requestVoteRes ⟨1, 1⟩⟩)) ∧
      .note (.becameLeader 1) ∈
        (l.node.handle (.packet ⟨0, 0⟩ ⟨0, 1, .requestVoteRes ⟨1, 1⟩⟩)).script :=
    Lives.exists_of_moves (P := fun l =>
      NewVoter (.plain 3 0) l (.run (.packet ⟨0, 0⟩ ⟨0, 1, .requestVoteRes ⟨1, 1⟩⟩)) ∧
      .note (.becameLeader 1) ∈
        (l.node.handle (.packet ⟨0, 0⟩ ⟨0, 1, .requestVoteRes ⟨1, 1⟩⟩)).script)
      [.run (.timeout ⟨0, 0⟩)] (by decide +kernel)
  obtain ⟨l, hl, hnew, hwin⟩ := hlife
  exact ⟨l, hl, win_needs_majority hl (m := .run (.packet ⟨0, 0⟩ ⟨0, 1, .requestVoteRes ⟨1, 1⟩⟩))
    (by decide) hnew hwin⟩

/-- Node 0 of five stands, gets node 1's vote twice and becomes a leader. -/
theorem win_without_majority :
    ∃ l, Lives (.plain 5 0) (fun _ _ => True) l ∧
      .note (.becameLeader 1) ∈
        (l.node.handle (.packet ⟨0, 0⟩ ⟨0, 1, .requestVoteRes ⟨1, 1⟩⟩)).script ∧
      ¬5 / 2 < (granters (.plain 5 0) (l.heard ++
        (l.hearing (.packet ⟨0, 0⟩ ⟨0, 1, .requestVoteRes ⟨1, 1⟩⟩)).toList) 1).card :=
  Lives.exists_of_moves (P := fun l => .note (.becameLeader 1) ∈
      (l.node.handle (.packet ⟨0, 0⟩ ⟨0, 1, .requestVoteRes ⟨1, 1⟩⟩)).script ∧
      ¬5 / 2 < (granters (.plain 5 0) (l.heard ++
        (l.hearing (.packet ⟨0, 0⟩ ⟨0, 1, .requestVoteRes ⟨1, 1⟩⟩)).toList) 1).card)
    [.run (.timeout ⟨0, 0⟩), .run (.packet ⟨0, 0⟩ ⟨0, 1, .requestVoteRes ⟨1, 1⟩⟩)]
    (by decide +kernel)

/-! ### A candidate with a majority -/

/-- A candidate that goes on has its own vote only, or was not elected by the last. -/
theorem Node.handle_votes {n : Node Disk} {input : Input} (hwf : input.WellFormed)
    (hN : 2 ≤ n.config.numNodes)
    (hvotes : n.role = .candidate → n.votesReceived ≤ n.config.numNodes / 2)
    (hr : (n.handle input).role = .candidate) :
    (n.handle input).votesReceived ≤ n.config.numNodes / 2 := by
  rcases handle_cases n hwf with hcalm | ⟨env, pkt, resp, -, -, -, -, -, -, heq⟩
  · rcases hcalm.votes hr with hone | ⟨hr', -, hsame⟩
    · omega
    · rw [hsame]
      exact hvotes hr'
  · rw [heq] at hr ⊢
    split at hr
    · rw [becomeLeader_role] at hr
      cases hr
    · rename_i hfew
      rw [if_neg hfew]
      exact not_lt.mp hfew

theorem Lives.votes_le {ok : Life → Move → Prop} (hN : 2 ≤ config.numNodes)
    (hl : Lives config ok l) : l.node.config = config ∧
      (l.node.role = .candidate → l.node.votesReceived ≤ config.numNodes / 2) := by
  refine hl.invariant (P := fun l => l.node.config = config ∧
    (l.node.role = .candidate → l.node.votesReceived ≤ config.numNodes / 2))
    ⟨rfl, fun hr => by cases hr⟩ fun {l m} _ ⟨hcfg, hvotes⟩ hwf _ => ?_
  cases m with
  | crash input k => exact ⟨rfl, fun hr => by cases hr⟩
  | run input =>
      have hhandle := Node.handle_votes hwf (n := l.node) (by rwa [hcfg]) (by rwa [hcfg])
      rw [hcfg] at hhandle
      unfold Life.move
      dsimp only
      split
      · exact ⟨rfl, fun hr => by cases hr⟩
      · exact ⟨(Node.handle_config l.node hwf).trans hcfg, hhandle⟩

/-- A node alone in its cluster stands at its first timeout, and nobody is there to
send it the vote at which the majority would be noticed. -/
theorem stands_alone : ∃ l, Lives (.plain 1 0) Life.InTables l ∧
    l.node.role = .candidate ∧ l.node.votesReceived = 1 :=
  Lives.exists_of_moves (P := fun l => l.node.role = .candidate ∧ l.node.votesReceived = 1)
    [.run (.timeout ⟨0, 0⟩)] (by decide +kernel)

/-- In the clusters of which sizes no candidate ever has a majority, as long as leaders
keep to their tables: all but those of one node. -/
theorem candidates_lack_majority (N : ℕ) :
    (∀ config : Config, config.numNodes = N → config.id < N →
      ∀ l, Lives config Life.InTables l → l.node.role = .candidate →
        l.node.votesReceived ≤ N / 2) ↔ N ≠ 1 := by
  constructor
  · rintro h rfl
    obtain ⟨l, hl, hr, hvotes⟩ := stands_alone
    have hle := h (.plain 1 0) rfl Nat.one_pos l hl hr
    omega
  · rintro hN config rfl hid l hl hr
    exact (hl.votes_le (by omega)).2 hr

theorem candidate_with_majority : ∃ l, Lives (.plain 1 0) Life.InTables l ∧
    l.node.role = .candidate ∧ ¬l.node.votesReceived ≤ 1 / 2 := by
  obtain ⟨l, hl, hr, hvotes⟩ := stands_alone
  exact ⟨l, hl, hr, by omega⟩

end GeoRaft
