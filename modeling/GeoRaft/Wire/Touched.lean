import GeoRaft.Wire.Aside

/-!
What is on no list of accesses has no part in the handling of a packet.

A node whose tables agree with its own where the lists say so does the same and
writes the same, and an element that no list has stays as it was.
-/

namespace GeoRaft

open Word Octets

namespace Node

variable {σ : Type} [Storage σ]

/-! ### The handlers -/

omit [Storage σ] in
/-- The two nodes differ at most in elements of the tables that are not on the list. -/
structure Agree (l : List Access) (n n' : Node σ) : Prop where
  eq : n' = n.withTables n'.nextIndex n'.matchIndex
  nextIndex : ∀ i, .nextIndex i ∈ l → n'.nextIndex[i]? = n.nextIndex[i]?
  matchIndex : ∀ i, .matchIndex i ∈ l → n'.matchIndex[i]? = n.matchIndex[i]?

variable {l : List Access} {n n' : Node σ}

omit [Storage σ] in
theorem Agree.refl (l : List Access) (n : Node σ) : Agree l n n :=
  ⟨rfl, fun _ _ => rfl, fun _ _ => rfl⟩

omit [Storage σ] in
theorem Agree.withTables {next : List ℕ} {mtch : List ℤ}
    (hnext : ∀ i, .nextIndex i ∈ l → next[i]? = n.nextIndex[i]?)
    (hmtch : ∀ i, .matchIndex i ∈ l → mtch[i]? = n.matchIndex[i]?) :
    Agree l n (n.withTables next mtch) := ⟨rfl, hnext, hmtch⟩

omit [Storage σ] in
/-- A function that commutes with the tables that agree has left its own alone. -/
theorem tables_of_withTables {f : Node σ → Node σ} (n : Node σ)
    (hf : f (n.withTables n.nextIndex n.matchIndex) = (f n).withTables n.nextIndex n.matchIndex) :
    (f n).nextIndex = n.nextIndex ∧ (f n).matchIndex = n.matchIndex := by
  rw [show n.withTables n.nextIndex n.matchIndex = n from rfl] at hf
  rw [hf]
  exact ⟨rfl, rfl⟩

omit [Storage σ] in
theorem Agree.congr (h : Agree l n n') {f : Node σ → Node σ}
    (hf : ∀ next mtch, Agree l n (n.withTables next mtch) →
      f (n.withTables next mtch) = (f n).withTables next mtch) : Agree l (f n) (f n') := by
  obtain ⟨hnext, hmtch⟩ := tables_of_withTables n (hf _ _ (.refl l n))
  have heq := hf n'.nextIndex n'.matchIndex (by rwa [← h.eq])
  rw [← h.eq] at heq
  rw [heq]
  exact .withTables (fun i hi => (h.nextIndex i hi).trans (by rw [hnext]))
    (fun i hi => (h.matchIndex i hi).trans (by rw [hmtch]))

theorem mem_commitLoopTouches {curTerm : ℕ} {logLen : ℤ} {a : Access} :
    a ∈ n.commitLoopTouches curTerm logLen ↔ ∃ k < (logLen - (n.commitIndex + 1)).toNat,
      n.raftGetLogTerm (n.commitIndex + 1 + k) = curTerm ∧ ∃ i ∈ n.others, .matchIndex i = a := by
  rw [commitLoopTouches, List.mem_flatMap]
  refine exists_congr fun k => ?_
  rw [List.mem_range]
  refine and_congr_right fun _ => ?_
  by_cases hterm : n.raftGetLogTerm (n.commitIndex + 1 + k) = curTerm
  · rw [if_neg (not_not.mpr hterm), List.mem_map]
    exact (and_iff_right hterm).symm
  · rw [if_pos hterm]
    exact iff_of_false List.not_mem_nil fun h => hterm h.1

omit [Storage σ] in
/-- A success is written down for the sender. -/
theorem Agree.credit (h : Agree l n n') (srcId w : ℕ) (v : ℤ) :
    Agree l { n with matchIndex := n.matchIndex.set srcId v, nextIndex := n.nextIndex.set srcId w }
      { n' with matchIndex := n'.matchIndex.set srcId v, nextIndex := n'.nextIndex.set srcId w } where
  eq := by
    rw [h.eq]
    rfl
  nextIndex i hi := by
    show (n'.nextIndex.set srcId w)[i]? = (n.nextIndex.set srcId w)[i]?
    rw [List.getElem?_set', List.getElem?_set', h.nextIndex i hi]
  matchIndex i hi := by
    show (n'.matchIndex.set srcId v)[i]? = (n.matchIndex.set srcId v)[i]?
    rw [List.getElem?_set', List.getElem?_set', h.matchIndex i hi]

omit [Storage σ] in
theorem Agree.debit (h : Agree l n n') (srcId : ℕ) :
    Agree l { n with nextIndex := n.nextIndex.modify srcId (· - 1) }
      { n' with nextIndex := n'.nextIndex.modify srcId (· - 1) } where
  eq := by
    rw [h.eq]
    rfl
  nextIndex i hi := by
    show (n'.nextIndex.modify srcId (· - 1))[i]? = (n.nextIndex.modify srcId (· - 1))[i]?
    rw [List.getElem?_modify, List.getElem?_modify, h.nextIndex i hi]
  matchIndex := h.matchIndex

theorem handleAppendEntriesResponse_agree (h : Agree l n n') (env : Env) (srcId : ℕ)
    (resp : AppendEntriesRes) (hl : ∀ a ∈ n.handleAppendEntriesResponseTouches srcId resp, a ∈ l) :
    Agree l (n.handleAppendEntriesResponse env srcId resp)
      (n'.handleAppendEntriesResponse env srcId resp) := by
  have hget : n'.get .currentTerm = n.get .currentTerm := by rw [h.eq, withTables_get]
  have hrole : n'.role = n.role := by rw [h.eq, withTables_role]
  have hlen : n'.logLength = n.logLength := by rw [h.eq, withTables_logLength]
  unfold handleAppendEntriesResponseTouches at hl
  unfold handleAppendEntriesResponse
  dsimp only at hl ⊢
  rw [hget, hlen]
  by_cases hlater : resp.term > u32 (n.get .currentTerm)
  · rw [if_pos hlater, if_pos hlater]
    exact h.congr (f := fun m => m.becomeFollower env resp.term srcId) fun next mtch _ =>
      becomeFollower_withTables n next mtch env _ _
  rw [if_neg hlater] at hl
  rw [if_neg hlater, if_neg hlater]
  by_cases hother : n.role ≠ .leader ∨ resp.term < u32 (n.get .currentTerm)
  · have hother' : n'.role ≠ .leader ∨ resp.term < u32 (n.get .currentTerm) := by rwa [hrole]
    rw [if_pos hother, if_pos hother']
    exact h
  have hother' : ¬(n'.role ≠ .leader ∨ resp.term < u32 (n.get .currentTerm)) := by rwa [hrole]
  rw [if_neg hother] at hl
  rw [if_neg hother, if_neg hother']
  by_cases hsucc : resp.success ≠ 0
  · rw [if_pos hsucc] at hl
    rw [if_pos hsucc, if_pos hsucc]
    -- what the loop reads of the others agrees also once the success is written down
    have hcommit := (h.credit srcId (u32 n.logLength) (i32 resp.newMatchIndex)).congr
      (f := fun m => m.commitLoop (u32 (n.get .currentTerm)) n.logLength) fun next mtch hagree =>
        commitLoop_withTables _ next mtch _ _ fun k hk hterm i hi =>
          hagree.matchIndex i (hl _ (List.mem_append_right _
            (mem_commitLoopTouches.mpr ⟨k, hk, hterm, i, hi, rfl⟩)))
    exact hcommit.congr fun next mtch _ => applyToStateMachine_withTables _ next mtch
  · rw [if_neg hsucc] at hl
    rw [if_neg hsucc, if_neg hsucc]
    rw [getD_congr (h.nextIndex srcId (hl _ List.mem_cons_self)) 0]
    split
    · exact h.debit srcId
    · exact h

theorem handleRequestVoteResponse_agree (h : Agree l n n') (env : Env) (srcId : ℕ)
    (resp : RequestVoteRes) :
    Agree l (n.handleRequestVoteResponse env srcId resp)
      (n'.handleRequestVoteResponse env srcId resp) := by
  obtain ⟨heq, hnext, hmtch⟩ := h
  generalize n'.nextIndex = next at heq hnext
  generalize n'.matchIndex = mtch at heq hmtch
  subst heq
  unfold handleRequestVoteResponse
  dsimp only
  rw [withTables_role, withTables_get]
  split
  · exact .withTables hnext hmtch
  split
  · exact .withTables hnext hmtch
  split
  · exact .withTables hnext hmtch
  split
  · have hcond : (n.withTables next mtch).votesReceived + 1 >
        (n.withTables next mtch).config.numNodes / 2 ↔
        n.votesReceived + 1 > n.config.numNodes / 2 := Iff.rfl
    by_cases hwon : n.votesReceived + 1 > n.config.numNodes / 2
    · -- the tables are filled anew
      rw [if_pos hwon, if_pos (hcond.mpr hwon)]
      exact .refl l _
    · rw [if_neg hwon, if_neg fun h => hwon (hcond.mp h)]
      exact .withTables (n := { n with votesReceived := n.votesReceived + 1 }) hnext hmtch
  · exact .withTables hnext hmtch

theorem handleProcRequest_agree (h : Agree l n n') (req : ProcReq) (srcId : ℕ)
    (hl : ∀ a ∈ n.handleProcRequestTouches req, a ∈ l) :
    Agree l (n.handleProcRequest req srcId) (n'.handleProcRequest req srcId) := by
  refine h.congr (f := fun m => m.handleProcRequest req srcId) fun next mtch hagree => ?_
  show (n.withTables next mtch).handleProcRequest req srcId =
    (n.handleProcRequest req srcId).withTables next mtch
  unfold handleProcRequest
  unfold handleProcRequestTouches at hl
  dsimp only at hl ⊢
  rw [withTables_role, withTables_get, withTables_logLength]
  split
  · rfl
  · generalize (⟨u32 (n.get .currentTerm), req.clientId, req.cmdSeqno, req.cmd⟩ : LogEntry) = entry
      at hl ⊢
    rw [appendLogEntry_withTables, recordOutstanding_withTables]
    have hnext : (n.appendLogEntry entry).nextIndex = n.nextIndex :=
      (tables_of_withTables (f := fun m => m.appendLogEntry entry) n
        (appendLogEntry_withTables n _ _ entry)).1
    have hnext : ((n.appendLogEntry entry).recordOutstanding req n.logLength).nextIndex =
        n.nextIndex := by rw [recordOutstanding_eq, hnext]
    generalize (n.appendLogEntry entry).recordOutstanding req n.logLength = m at hl hnext ⊢
    refine broadcastAppendEntries_withTables m next mtch fun hr i hi => ?_
    rw [hnext]
    refine hagree.nextIndex i (hl _ ?_)
    rw [broadcastAppendEntriesTouches, if_neg (not_not.mpr hr)]
    exact List.mem_flatMap.mpr ⟨i, hi, List.mem_cons_self⟩

/-- Handlers read no other element, and what they write depends on no other. -/
theorem raftHandleRpc_agree (h : Agree l n n') (env : Env) (p : Pkt)
    (hl : ∀ a ∈ n.rpcTouches p.src p.rpc, a ∈ l) :
    Agree l (n.raftHandleRpc env p) (n'.raftHandleRpc env p) := by
  obtain ⟨dst, src, rpc⟩ := p
  cases rpc with
  | appendEntriesReq req =>
      exact h.congr (f := fun m => m.handleAppendEntriesRequest env req) fun next mtch _ =>
        handleAppendEntriesRequest_withTables n next mtch env req
  | appendEntriesRes resp => exact handleAppendEntriesResponse_agree h env src resp hl
  | requestVoteReq req =>
      exact h.congr (f := fun m => m.handleRequestVoteRequest env src req) fun next mtch _ =>
        handleRequestVoteRequest_withTables n next mtch env src req
  | requestVoteRes resp => exact handleRequestVoteResponse_agree h env src resp
  | procReq req => exact handleProcRequest_agree h req src hl
  | procRes resp => exact h

/-- The elements that are not on the list are the same in both. -/
structure Elsewhere (l : List Access) (n m : Node σ) : Prop where
  nextIndex : ∀ i, .nextIndex i ∉ l → m.nextIndex[i]? = n.nextIndex[i]?
  matchIndex : ∀ i, .matchIndex i ∉ l → m.matchIndex[i]? = n.matchIndex[i]?

omit [Storage σ] in
theorem Elsewhere.of_tables {m : Node σ} (h : m.nextIndex = n.nextIndex ∧ m.matchIndex = n.matchIndex) :
    Elsewhere l n m :=
  ⟨fun i _ => by rw [h.1], fun i _ => by rw [h.2]⟩

omit [Storage σ] in
theorem Elsewhere.refl (l : List Access) (n : Node σ) : Elsewhere l n n := .of_tables ⟨rfl, rfl⟩

omit [Storage σ] in
theorem Elsewhere.mono {l' : List Access} {m : Node σ} (h : Elsewhere l n m) (hsub : ∀ a ∈ l, a ∈ l') :
    Elsewhere l' n m :=
  ⟨fun i hi => h.nextIndex i fun hmem => hi (hsub _ hmem),
    fun i hi => h.matchIndex i fun hmem => hi (hsub _ hmem)⟩

theorem handleAppendEntriesResponse_elsewhere (env : Env) (srcId : ℕ) (resp : AppendEntriesRes) :
    Elsewhere (n.handleAppendEntriesResponseTouches srcId resp) n
      (n.handleAppendEntriesResponse env srcId resp) := by
  unfold handleAppendEntriesResponse handleAppendEntriesResponseTouches
  dsimp only
  split
  · exact .of_tables ⟨rfl, rfl⟩
  split
  · exact .of_tables ⟨rfl, rfl⟩
  split
  · -- neither committing nor applying writes to the tables
    have htables : ∀ c : Node σ, ((c.commitLoop (u32 (n.get .currentTerm))
        n.logLength).applyToStateMachine).nextIndex = c.nextIndex ∧
        ((c.commitLoop (u32 (n.get .currentTerm)) n.logLength).applyToStateMachine).matchIndex =
          c.matchIndex := by
      intro c
      rw [applyToStateMachine_eq]
      exact tables_of_withTables (f := fun m => m.commitLoop _ _) c
        (commitLoop_withTables c _ _ _ _ fun _ _ _ _ _ => rfl)
    obtain ⟨hnext, hmtch⟩ := htables { n with
      matchIndex := n.matchIndex.set srcId (i32 resp.newMatchIndex)
      nextIndex := n.nextIndex.set srcId (u32 n.logLength) }
    constructor
    · intro i hi
      rw [hnext]
      refine List.getElem?_set_ne fun heq => hi ?_
      rw [heq]
      simp
    · intro i hi
      rw [hmtch]
      refine List.getElem?_set_ne fun heq => hi ?_
      rw [heq]
      simp
  split
  · refine ⟨fun i hi => ?_, fun _ _ => rfl⟩
    have hne : srcId ≠ i := by
      rintro rfl
      exact hi List.mem_cons_self
    rw [List.getElem?_modify]
    simp [hne]
  · exact .of_tables ⟨rfl, rfl⟩

theorem handleRequestVoteResponse_elsewhere (ht : Tables n) (env : Env) (srcId : ℕ)
    (resp : RequestVoteRes) :
    Elsewhere (n.handleRequestVoteResponseTouches resp) n (n.handleRequestVoteResponse env srcId resp) := by
  unfold handleRequestVoteResponse handleRequestVoteResponseTouches
  dsimp only
  by_cases hrole : n.role ≠ .candidate
  · rw [if_pos hrole, if_pos hrole]
    exact .of_tables ⟨rfl, rfl⟩
  rw [if_neg hrole, if_neg hrole]
  by_cases hgt : resp.term > u32 (n.get .currentTerm)
  · rw [if_pos hgt]
    exact .of_tables ⟨rfl, rfl⟩
  rw [if_neg hgt]
  by_cases hlt : resp.term < u32 (n.get .currentTerm)
  · rw [if_pos hlt]
    exact .of_tables ⟨rfl, rfl⟩
  rw [if_neg hlt]
  by_cases hgranted : resp.voteGranted ≠ 0
  · rw [if_pos hgranted, if_neg (not_or.mpr ⟨by omega, hgranted⟩)]
    by_cases hwon : n.votesReceived + 1 > n.config.numNodes / 2
    · rw [if_pos hwon, if_pos hwon]
      -- what is on no list is beyond the tables
      have hbeyond : ∀ i, (.nextIndex i ∉ n.becomeLeaderTouches ∨ .matchIndex i ∉ n.becomeLeaderTouches) →
          n.config.numNodes ≤ i := by
        intro i hi
        by_contra hlt
        have hmem : ∀ a ∈ [Access.nextIndex i, .matchIndex i], a ∈ n.becomeLeaderTouches :=
          fun a ha => List.mem_append_left _
            (List.mem_flatMap.mpr ⟨i, List.mem_range.mpr (not_le.mp hlt), ha⟩)
        rcases hi with hi | hi
        · exact hi (hmem _ (by simp))
        · exact hi (hmem _ (by simp))
      constructor
      · intro i hi
        have hle := hbeyond i (.inl hi)
        rw [becomeLeader_nextIndex, List.getElem?_eq_none (by simpa using hle), List.getElem?_eq_none (by rwa [ht.nextIndex])]
      · intro i hi
        have hle := hbeyond i (.inr hi)
        rw [becomeLeader_matchIndex, List.getElem?_eq_none (by simpa using hle), List.getElem?_eq_none (by rwa [ht.matchIndex])]
    · rw [if_neg hwon, if_neg hwon]
      exact .of_tables ⟨rfl, rfl⟩
  · rw [if_neg hgranted]
    exact .of_tables ⟨rfl, rfl⟩

/-- Handlers write no other element. `become_leader` fills both tables as a whole, which is all
of them in tables that have an element for each node. -/
theorem raftHandleRpc_elsewhere (ht : Tables n) (env : Env) (p : Pkt) :
    Elsewhere (n.rpcTouches p.src p.rpc) n (n.raftHandleRpc env p) := by
  obtain ⟨dst, src, rpc⟩ := p
  cases rpc with
  | appendEntriesReq req =>
      exact .of_tables (tables_of_withTables (f := fun m => m.handleAppendEntriesRequest env req) n
        (handleAppendEntriesRequest_withTables n _ _ env req))
  | appendEntriesRes resp => exact handleAppendEntriesResponse_elsewhere env src resp
  | requestVoteReq req =>
      exact .of_tables (tables_of_withTables (f := fun m => m.handleRequestVoteRequest env src req) n
        (handleRequestVoteRequest_withTables n _ _ env src req))
  | requestVoteRes resp => exact handleRequestVoteResponse_elsewhere ht env src resp
  | procReq req =>
      have htables : (n.handleProcRequest req src).nextIndex = n.nextIndex ∧
          (n.handleProcRequest req src).matchIndex = n.matchIndex := by
        unfold handleProcRequest
        dsimp only
        split
        · exact ⟨rfl, rfl⟩
        · rw [broadcastAppendEntries_eq, recordOutstanding_eq]
          exact tables_of_withTables (f := fun m => m.appendLogEntry _) n
            (appendLogEntry_withTables n _ _ _)
      exact .of_tables htables
  | procRes resp => exact .refl _ n

end Node

/-! ### The codecs -/

theorem payload_mem_firstOf {n i : ℕ} : Access.payload i ∈ firstOf n .payload ↔ i < n := by
  simp [mem_firstOf]

theorem payload_mem_unpackTouches {pkt : WirePkt} {c : RpcCode} {i : ℕ} :
    .payload i ∈ pkt.unpackTouches c ↔ i < Rpc.reach pkt c := by
  have hfixed : ∀ n m : ℕ,
      (.payload i ∈ if pkt.header.payloadN < n then [] else firstOf m .payload) ↔
        i < if pkt.header.payloadN < n then 0 else m := by
    intro n m
    split
    · simp
    · exact payload_mem_firstOf
  cases c with
  | callAppendEnt =>
      unfold WirePkt.unpackTouches Rpc.reach
      dsimp only
      split
      · simp
      split
      · exact payload_mem_firstOf
      · rw [List.mem_append, payload_mem_firstOf]
        simp [mem_firstOf]
  | respAppendEnt => exact hfixed 9 9
  | callReqVote => exact hfixed 16 16
  | respReqVote => exact hfixed 5 5
  | callProc => exact hfixed 12 12
  | respProc => exact hfixed 13 17

/-- No byte but those on the list has a part in what is unpacked. -/
theorem Rpc.unpack_congr_touches {pkt pkt' : WirePkt} {c : RpcCode}
    (hn : pkt'.header.payloadN = pkt.header.payloadN)
    (hp : ∀ i, .payload i ∈ pkt.unpackTouches c → pkt'.payload[i]? = pkt.payload[i]?) :
    Rpc.unpack pkt' c = Rpc.unpack pkt c := by
  refine Rpc.unpack_congr hn (List.ext_getElem? fun i => ?_) le_rfl
  rw [List.getElem?_take, List.getElem?_take]
  split
  · rename_i hlt
    exact hp i (payload_mem_unpackTouches.mpr hlt)
  · rfl

/-- The entries of a request are written one by one, once the whole request is accepted. -/
theorem entries_mem_unpackTouches {pkt : WirePkt} {c : RpcCode} {i : ℕ} :
    .entries i ∈ pkt.unpackTouches c ↔ ∃ rpc, Rpc.unpack pkt c = some rpc ∧ i < rpc.nEntries := by
  have hfixed : ∀ n m : ℕ, c ≠ .callAppendEnt →
      ((.entries i ∈ if pkt.header.payloadN < n then [] else firstOf m .payload) ↔
        ∃ rpc, Rpc.unpack pkt c = some rpc ∧ i < rpc.nEntries) := by
    intro n m hc
    refine iff_of_false ?_ ?_
    · split <;> simp [mem_firstOf]
    · rintro ⟨rpc, hrpc, hi⟩
      have hcode := Rpc.code_of_unpack hrpc
      cases rpc with
      | appendEntriesReq req => exact hc hcode
      | _ => exact absurd hi (Nat.not_lt_zero _)
  cases c with
  | callAppendEnt =>
      unfold WirePkt.unpackTouches
      rw [Rpc.unpack, rpcUnpackAppendEntriesReq]
      dsimp only
      by_cases h24 : pkt.header.payloadN < 24
      · rw [if_pos h24, if_pos h24]
        simp
      rw [if_neg h24, if_neg h24]
      by_cases hmax : readU32Be 20 pkt.payload > maxAppendEntriesN
      · rw [if_pos (.inl hmax), if_pos hmax]
        simp [mem_firstOf]
      rw [if_neg hmax]
      by_cases hsize : pkt.header.payloadN < 24 + readU32Be 20 pkt.payload * logEntryPackedSize
      · rw [if_pos (.inr hsize), if_pos hsize]
        simp [mem_firstOf]
      rw [if_neg (not_or.mpr ⟨hmax, hsize⟩), if_neg hsize]
      simp [mem_firstOf, Rpc.nEntries, AppendEntriesReq.nEntries, length_unpackEntries]
  | respAppendEnt => exact hfixed 9 9 (by decide)
  | callReqVote => exact hfixed 16 16 (by decide)
  | respReqVote => exact hfixed 5 5 (by decide)
  | callProc => exact hfixed 12 12 (by decide)
  | respProc => exact hfixed 13 17 (by decide)

theorem AppendEntriesReq.length_head (req : AppendEntriesReq) : (bytesOf req.head).length = 24 := rfl

/-- A request with too many entries is given up after its head. -/
theorem rpcPackAppendEntriesReq_refused (pkt : WirePkt) (dst src : ℕ) {req : AppendEntriesReq}
    (h : req.nEntries > maxAppendEntriesN) :
    (rpcPackAppendEntriesReq pkt dst src req).2.payload =
      (pkt.fill dst src .callAppendEnt req.head).payload := by
  rw [rpcPackAppendEntriesReq, if_pos h]

/-- A pack function writes to no byte but those on its list. -/
theorem Rpc.pack_elsewhere (rpc : Rpc) (pkt : WirePkt) (dst src : ℕ) {i : ℕ}
    (h : .payload i ∉ rpc.packTouches) : (rpc.pack pkt dst src).2.payload[i]? = pkt.payload[i]? := by
  have hfill : ∀ code fields, (bytesOf fields).length ≤ maxPayload → (bytesOf fields).length ≤ i →
      (pkt.fill dst src code fields).payload[i]? = pkt.payload[i]? := by
    intro code fields hsize hi
    rw [(WirePkt.fill_eq pkt dst src code fields hsize).2, List.getElem?_append_right hi,
      List.getElem?_drop, Nat.add_sub_cancel' hi]
  unfold Rpc.packTouches at h
  by_cases hmany : rpc.nEntries > maxAppendEntriesN
  · rw [if_pos hmany, payload_mem_firstOf] at h
    cases rpc with
    | appendEntriesReq req =>
        rw [Rpc.pack, rpcPackAppendEntriesReq_refused pkt dst src hmany]
        exact hfill .callAppendEnt req.head (by rw [AppendEntriesReq.length_head]; decide)
          ((AppendEntriesReq.length_head req).trans_le (not_lt.mp h))
    | _ => exact absurd hmany (Nat.not_lt_zero _)
  · have hmax : rpc.nEntries ≤ maxAppendEntriesN := not_lt.mp hmany
    rw [if_neg hmany, List.mem_append, payload_mem_firstOf, not_or] at h
    rw [Rpc.pack_eq pkt dst src hmax]
    exact hfill rpc.code rpc.fields (Rpc.size_le hmax) (not_lt.mp h.1)

namespace Node

variable {σ : Type} [Storage σ] {n n' : Node σ}

theorem mem_touches_of_unpack {env : Env} {pkt : WirePkt} {c : RpcCode}
    (hc : RpcCode.ofVal pkt.header.code = some c) {a : Access} (h : a ∈ pkt.unpackTouches c) :
    a ∈ n.touches env pkt := by
  rw [touches, hc]
  exact List.mem_append_left _ h

theorem mem_touches_of_rpc {env : Env} {pkt : WirePkt} {c : RpcCode} {rpc : Rpc}
    (hc : RpcCode.ofVal pkt.header.code = some c) (hrpc : Rpc.unpack pkt c = some rpc) {a : Access}
    (h : a ∈ n.rpcTouches pkt.header.src rpc) : a ∈ n.touches env pkt := by
  rw [touches, hc]
  dsimp only
  rw [hrpc]
  exact List.mem_append_right _ (List.mem_append_left _ h)

/-- Handling a packet reads no element but those on its list, and what it writes depends on
no other: neither a byte of the payload nor an element of the tables. -/
theorem raftHandleWire_agree (env : Env) {pkt pkt' : WirePkt} (hh : pkt'.header = pkt.header)
    (hp : ∀ i, .payload i ∈ n.touches env pkt → pkt'.payload[i]? = pkt.payload[i]?)
    (h : Agree (n.touches env pkt) n n') :
    Agree (n.touches env pkt) (n.raftHandleWire env pkt) (n'.raftHandleWire env pkt') := by
  unfold raftHandleWire WirePkt.rpc
  rw [hh]
  cases hc : RpcCode.ofVal pkt.header.code with
  | none => exact h
  | some c =>
      have hunpack : Rpc.unpack pkt' c = Rpc.unpack pkt c :=
        Rpc.unpack_congr_touches (by rw [hh]) fun i hi => hp i (mem_touches_of_unpack hc hi)
      rw [Option.bind_some, Option.bind_some, hunpack]
      cases hrpc : Rpc.unpack pkt c with
      | none => exact h
      | some rpc => exact raftHandleRpc_agree h env _ fun a ha => mem_touches_of_rpc hc hrpc ha

/-- Nor does it write to another element of the tables. -/
theorem raftHandleWire_elsewhere (ht : Tables n) (env : Env) (pkt : WirePkt) :
    Elsewhere (n.touches env pkt) n (n.raftHandleWire env pkt) := by
  unfold raftHandleWire WirePkt.rpc
  cases hc : RpcCode.ofVal pkt.header.code with
  | none => exact .refl _ n
  | some c =>
      rw [Option.bind_some]
      cases hrpc : Rpc.unpack pkt c with
      | none => exact .refl _ n
      | some rpc =>
          exact (raftHandleRpc_elsewhere ht env ⟨pkt.header.dst, pkt.header.src, rpc⟩).mono
            fun a ha => mem_touches_of_rpc hc hrpc ha

end Node

end GeoRaft
