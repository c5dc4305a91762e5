import GeoRaft.Node.Loop
import GeoRaft.Wire.Codec

/-!
Which elements of which arrays handling a packet reads or writes.

Beside each function that indexes an array stands the list of its accesses. The
numbers come from the network: the entries and the payload by way of the codecs,
the two index tables by way of `header.src`, which nothing checks. That nothing
else is touched is for `Wire.Touched`.
-/

namespace GeoRaft

open Word Octets

inductive Access
  | payload (i : ℕ)
  | entries (i : ℕ)
  | nextIndex (i : ℕ)
  | matchIndex (i : ℕ)
  deriving DecidableEq, Repr

/-- The first `n` elements of an array. -/
def firstOf (n : ℕ) (array : ℕ → Access) : List Access := (List.range n).map array

theorem mem_firstOf {n : ℕ} {array : ℕ → Access} {a : Access} :
    a ∈ firstOf n array ↔ ∃ i < n, array i = a := by
  simp [firstOf]

/-! ### The codecs -/

/-- A pack function gives up on too many entries before it touches the first. -/
def Rpc.packTouches (rpc : Rpc) : List Access :=
  if rpc.nEntries > maxAppendEntriesN then firstOf 24 .payload
  else firstOf (bytesOf rpc.fields).length .payload ++ firstOf rpc.nEntries .entries

def WirePkt.unpackTouches (pkt : WirePkt) : RpcCode → List Access
  | .callAppendEnt =>
    let n := readU32Be 20 pkt.payload
    if pkt.header.payloadN < 24 then []
    else if n > maxAppendEntriesN ∨ pkt.header.payloadN < 24 + n * logEntryPackedSize then
      firstOf 24 .payload
    else firstOf (24 + n * logEntryPackedSize) .payload ++ firstOf n .entries
  | .respAppendEnt => if pkt.header.payloadN < 9 then [] else firstOf 9 .payload
  | .callReqVote => if pkt.header.payloadN < 16 then [] else firstOf 16 .payload
  | .respReqVote => if pkt.header.payloadN < 5 then [] else firstOf 5 .payload
  | .callProc => if pkt.header.payloadN < 12 then [] else firstOf 12 .payload
  | .respProc => if pkt.header.payloadN < 13 then [] else firstOf 17 .payload

def Effect.touches {σ : Type} : Effect σ → List Access
  | .send pkt => pkt.rpc.packTouches
  | .store _ _ | .note _ | .exit => []

namespace Node

variable {σ : Type} [Storage σ]

/-! ### The handlers -/

def others (node : Node σ) : List ℕ :=
  (List.range node.config.numNodes).filter (· ≠ node.config.id)

def sendHeartbeatsTouches (node : Node σ) : List Access := node.others.map .nextIndex

def broadcastAppendEntriesTouches (node : Node σ) : List Access :=
  if node.role ≠ .leader then []
  else
    node.others.flatMap fun i =>
      .nextIndex i :: firstOf (node.nToSend node.logLength i).toNat .entries

def becomeLeaderTouches (node : Node σ) : List Access :=
  ((List.range node.config.numNodes).flatMap fun i => [.nextIndex i, .matchIndex i]) ++
    node.sendHeartbeatsTouches

/-- The loop over the entries, unless the request is dropped as stale. -/
def handleAppendEntriesRequestTouches (node : Node σ) (req : AppendEntriesReq) : List Access :=
  if node.get .currentTerm < 0 ∨ req.term < u32 (node.get .currentTerm) then []
  else firstOf req.nEntries .entries

/-- Every turn of the commit loop that finds an entry of the term goes through
`match_index`. -/
def commitLoopTouches (curTerm : ℕ) (logLen : ℤ) (node : Node σ) : List Access :=
  let first := node.commitIndex + 1
  (List.range (logLen - first).toNat).flatMap fun (k : ℕ) =>
    if node.raftGetLogTerm (first + k) ≠ curTerm then [] else node.others.map .matchIndex

def handleAppendEntriesResponseTouches (node : Node σ) (srcId : ℕ) (resp : AppendEntriesRes) :
    List Access :=
  let curTerm := u32 (node.get .currentTerm)
  if resp.term > curTerm then []
  else if node.role ≠ .leader ∨ resp.term < curTerm then []
  else if resp.success ≠ 0 then
    [.matchIndex srcId, .nextIndex srcId] ++ node.commitLoopTouches curTerm node.logLength
  else [.nextIndex srcId]

def handleRequestVoteResponseTouches (node : Node σ) (resp : RequestVoteRes) : List Access :=
  if node.role ≠ .candidate then []
  else if resp.term ≠ u32 (node.get .currentTerm) ∨ resp.voteGranted = 0 then []
  else if node.votesReceived + 1 > node.config.numNodes / 2 then node.becomeLeaderTouches
  else []

def handleProcRequestTouches (node : Node σ) (req : ProcReq) : List Access :=
  let newEntry : LogEntry := {
    clientId := req.clientId
    cmdSeqno := req.cmdSeqno
    cmd := req.cmd
    term := u32 (node.get .currentTerm) }
  ((node.appendLogEntry newEntry).recordOutstanding req node.logLength).broadcastAppendEntriesTouches

def rpcTouches (node : Node σ) (srcId : ℕ) : Rpc → List Access
  | .appendEntriesReq req => node.handleAppendEntriesRequestTouches req
  | .appendEntriesRes resp => node.handleAppendEntriesResponseTouches srcId resp
  | .requestVoteReq _ => []
  | .requestVoteRes resp => node.handleRequestVoteResponseTouches resp
  | .procReq req => node.handleProcRequestTouches req
  | .procRes _ => []

/-- All accesses of `raftHandleWire`: unpacking, the handler, and packing what it sends. -/
def touches (env : Env) (node : Node σ) (pkt : WirePkt) : List Access :=
  match RpcCode.ofVal pkt.header.code with
  | none => []
  | some code =>
    pkt.unpackTouches code ++
      match Rpc.unpack pkt code with
      | none => []
      | some rpc => node.rpcTouches pkt.header.src rpc ++
          (node.raftHandleWire env pkt).script.flatMap Effect.touches

/-! ### Their bounds -/

end Node

/-- The array has this element. -/
def Access.InBounds {σ : Type} (node : Node σ) : Access → Prop
  | payload i => i < maxPayload
  | entries i => i < maxAppendEntriesN
  | nextIndex i => i < node.nextIndex.length
  | matchIndex i => i < node.matchIndex.length

/-- All elements are there. -/
def AllInBounds {σ : Type} (node : Node σ) (l : List Access) : Prop :=
  ∀ a ∈ l, a.InBounds node

section

variable {σ : Type} {node : Node σ}

theorem allInBounds_nil : AllInBounds node [] := by
  intro a ha
  cases ha

theorem allInBounds_append {l l' : List Access} :
    AllInBounds node (l ++ l') ↔ AllInBounds node l ∧ AllInBounds node l' :=
  List.forall_mem_append

theorem allInBounds_flatMap {β : Type} {l : List β} {f : β → List Access}
    (h : ∀ x ∈ l, AllInBounds node (f x)) : AllInBounds node (l.flatMap f) := by
  intro a ha
  obtain ⟨x, hx, hax⟩ := List.mem_flatMap.mp ha
  exact h x hx a hax

theorem allInBounds_payload {n : ℕ} (h : n ≤ maxPayload) :
    AllInBounds node (firstOf n .payload) := by
  intro a ha
  obtain ⟨i, hi, rfl⟩ := mem_firstOf.mp ha
  exact hi.trans_le h

theorem allInBounds_entries {n : ℕ} (h : n ≤ maxAppendEntriesN) :
    AllInBounds node (firstOf n .entries) := by
  intro a ha
  obtain ⟨i, hi, rfl⟩ := mem_firstOf.mp ha
  exact hi.trans_le h

theorem Rpc.packTouches_inBounds (rpc : Rpc) : AllInBounds node rpc.packTouches := by
  unfold Rpc.packTouches
  split
  · exact allInBounds_payload (by decide)
  · rename_i h
    rw [allInBounds_append]
    exact ⟨allInBounds_payload (Rpc.size_le (not_lt.mp h)), allInBounds_entries (not_lt.mp h)⟩

theorem WirePkt.unpackTouches_inBounds (pkt : WirePkt) (c : RpcCode) :
    AllInBounds node (pkt.unpackTouches c) := by
  have hfixed : ∀ n m : ℕ, m ≤ maxPayload →
      AllInBounds node (if pkt.header.payloadN < n then [] else firstOf m .payload) := by
    intro n m hm
    split
    · exact allInBounds_nil
    · exact allInBounds_payload hm
  cases c with
  | callAppendEnt =>
      unfold WirePkt.unpackTouches
      dsimp only
      split
      · exact allInBounds_nil
      split
      · exact allInBounds_payload (by decide)
      · rename_i h
        have hn : readU32Be 20 pkt.payload ≤ 32 := not_lt.mp fun hgt => h (.inl hgt)
        rw [allInBounds_append]
        refine ⟨allInBounds_payload ?_, allInBounds_entries hn⟩
        show 24 + _ * 16 ≤ 1024
        omega
  | respAppendEnt => exact hfixed 9 9 (by decide)
  | callReqVote => exact hfixed 16 16 (by decide)
  | respReqVote => exact hfixed 5 5 (by decide)
  | callProc => exact hfixed 12 12 (by decide)
  | respProc => exact hfixed 13 17 (by decide)

/-! ### The index tables -/

/-- The tables have an element for each node of the cluster. -/
structure Tables (node : Node σ) : Prop where
  nextIndex : node.nextIndex.length = node.config.numNodes
  matchIndex : node.matchIndex.length = node.config.numNodes

theorem Node.mem_others {m : Node σ} {i : ℕ} (h : i ∈ m.others) : i < m.config.numNodes :=
  List.mem_range.mp (List.mem_filter.mp h).1

variable {m : Node σ}

theorem allInBounds_others (ht : Tables node) (hc : m.config = node.config) :
    AllInBounds node (m.others.map .nextIndex) ∧ AllInBounds node (m.others.map .matchIndex) := by
  constructor
  · intro a ha
    obtain ⟨i, hi, rfl⟩ := List.mem_map.mp ha
    exact (Node.mem_others hi).trans_eq (by rw [hc, ht.nextIndex])
  · intro a ha
    obtain ⟨i, hi, rfl⟩ := List.mem_map.mp ha
    exact (Node.mem_others hi).trans_eq (by rw [hc, ht.matchIndex])

namespace Node

variable [Storage σ]

omit [Storage σ] in
theorem nToSend_le (m : Node σ) (logLen : ℤ) (i : ℕ) :
    (m.nToSend logLen i).toNat ≤ maxAppendEntriesN := by
  unfold nToSend maxAppendEntriesN
  dsimp only
  split <;> split <;> omega

theorem broadcastAppendEntriesTouches_inBounds (ht : Tables node) (hc : m.config = node.config) :
    AllInBounds node m.broadcastAppendEntriesTouches := by
  unfold broadcastAppendEntriesTouches
  split
  · exact allInBounds_nil
  · refine allInBounds_flatMap fun i hi => ?_
    rw [← List.singleton_append, allInBounds_append]
    refine ⟨?_, allInBounds_entries (nToSend_le m _ i)⟩
    intro a ha
    exact (allInBounds_others ht hc).1 a (List.mem_map.mpr ⟨i, hi, (List.mem_singleton.mp ha).symm⟩)

omit [Storage σ] in
theorem becomeLeaderTouches_inBounds (ht : Tables node) : AllInBounds node node.becomeLeaderTouches := by
  unfold becomeLeaderTouches
  rw [allInBounds_append]
  refine ⟨allInBounds_flatMap fun i hi => ?_, (allInBounds_others ht rfl).1⟩
  have hi := List.mem_range.mp hi
  intro a ha
  rcases List.mem_cons.mp ha with rfl | ha
  · exact hi.trans_eq ht.nextIndex.symm
  · obtain rfl := List.mem_singleton.mp ha
    exact hi.trans_eq ht.matchIndex.symm

theorem commitLoopTouches_inBounds (ht : Tables node) (curTerm : ℕ) (logLen : ℤ) :
    AllInBounds node (node.commitLoopTouches curTerm logLen) := by
  unfold commitLoopTouches
  refine allInBounds_flatMap fun k _ => ?_
  split
  · exact allInBounds_nil
  · exact (allInBounds_others ht rfl).2

theorem config_appendLogEntry (m : Node σ) (entry : LogEntry) :
    (m.appendLogEntry entry).config = m.config := by
  unfold appendLogEntry
  dsimp only
  split <;> rfl

/-- Only `handle_append_entries_response` takes an index from the header. -/
theorem rpcTouches_inBounds (ht : Tables node) (srcId : ℕ) {rpc : Rpc}
    (hn : rpc.nEntries ≤ maxAppendEntriesN) :
    AllInBounds node (node.rpcTouches srcId rpc) ↔ ¬node.StrangeResponse srcId rpc := by
  have hother : (∀ res, rpc ≠ .appendEntriesRes res) → ¬node.StrangeResponse srcId rpc := by
    rintro hne ⟨-, -, res, hres, -⟩
    exact hne res hres
  cases rpc with
  | appendEntriesReq req =>
      refine iff_of_true ?_ (hother (by simp))
      rw [rpcTouches, handleAppendEntriesRequestTouches]
      split
      · exact allInBounds_nil
      · exact allInBounds_entries hn
  | appendEntriesRes resp =>
      rw [strangeResponse_iff]
      rw [rpcTouches, handleAppendEntriesResponseTouches]
      split
      · exact iff_of_true allInBounds_nil fun h => absurd h.2.2 (by omega)
      split
      · rename_i hcond
        exact iff_of_true allInBounds_nil fun h => hcond.elim (· h.1) fun hlt => by omega
      · rename_i hge hcond
        push Not at hcond
        have hsrc : AllInBounds node [.nextIndex srcId] ↔ srcId < node.config.numNodes := by
          rw [← ht.nextIndex]
          exact List.forall_mem_singleton
        have hsrc' : AllInBounds node [.matchIndex srcId] ↔ srcId < node.config.numNodes := by
          rw [← ht.matchIndex]
          exact List.forall_mem_singleton
        have hmember : ¬(node.role = .leader ∧ node.config.numNodes ≤ srcId ∧
            resp.term = u32 (node.get .currentTerm)) ↔ srcId < node.config.numNodes := by
          constructor
          · intro h
            by_contra hle
            exact h ⟨hcond.1, by omega, by omega⟩
          · intro hlt h
            omega
        rw [hmember]
        split
        · rw [allInBounds_append, ← List.singleton_append, allInBounds_append, hsrc, hsrc']
          exact ⟨fun h => h.1.1, fun h => ⟨⟨h, h⟩, commitLoopTouches_inBounds ht _ _⟩⟩
        · exact hsrc
  | requestVoteReq req => exact iff_of_true allInBounds_nil (hother (by simp))
  | requestVoteRes resp =>
      refine iff_of_true ?_ (hother (by simp))
      rw [rpcTouches, handleRequestVoteResponseTouches]
      split
      · exact allInBounds_nil
      split
      · exact allInBounds_nil
      split
      · exact becomeLeaderTouches_inBounds ht
      · exact allInBounds_nil
  | procReq req =>
      refine iff_of_true ?_ (hother (by simp))
      rw [rpcTouches, handleProcRequestTouches]
      refine broadcastAppendEntriesTouches_inBounds ht ?_
      rw [recordOutstanding_config, config_appendLogEntry]
  | procRes resp => exact iff_of_true allInBounds_nil (hother (by simp))

/-- Handling a packet keeps to the arrays exactly if it is not a response of the
leader's own term whose `header.src` is no member of the cluster. -/
theorem handling_in_bounds (env : Env) {node : Node σ} (ht : Tables node) (pkt : WirePkt) :
    AllInBounds node (node.touches env pkt) ↔
      ¬(node.role = .leader ∧ node.config.numNodes ≤ pkt.header.src ∧
        pkt.header.code = RpcCode.respAppendEnt.val ∧
        ∃ res, rpcUnpackAppendEntriesRes pkt = some res ∧ res.term = u32 (node.get .currentTerm)) := by
  unfold touches
  cases hcode : RpcCode.ofVal pkt.header.code with
  | none =>
      refine iff_of_true allInBounds_nil ?_
      rintro ⟨-, -, heq, -⟩
      rw [heq, RpcCode.ofVal_val] at hcode
      cases hcode
  | some code =>
      have hval : pkt.header.code = code.val := RpcCode.val_of_ofVal hcode
      dsimp only
      rw [allInBounds_append]
      cases hrpc : Rpc.unpack pkt code with
      | none =>
          refine iff_of_true ⟨pkt.unpackTouches_inBounds code, allInBounds_nil⟩ ?_
          rintro ⟨-, -, heq, res, hres, -⟩
          rw [heq, RpcCode.ofVal_val] at hcode
          obtain rfl := Option.some.inj hcode
          rw [Rpc.unpack, hres] at hrpc
          cases hrpc
      | some rpc =>
          have hsends : AllInBounds node
              ((node.raftHandleWire env pkt).script.flatMap Effect.touches) := by
            refine allInBounds_flatMap fun e _ => ?_
            cases e with
            | send p => exact p.rpc.packTouches_inBounds
            | store s event => exact allInBounds_nil
            | note event => exact allInBounds_nil
            | exit => exact allInBounds_nil
          dsimp only
          rw [allInBounds_append, rpcTouches_inBounds ht _ (Rpc.stands_of_unpack hrpc).2]
          have hiff : node.StrangeResponse pkt.header.src rpc ↔
              (node.role = .leader ∧ node.config.numNodes ≤ pkt.header.src ∧
                pkt.header.code = RpcCode.respAppendEnt.val ∧
                ∃ res, rpcUnpackAppendEntriesRes pkt = some res ∧
                  res.term = u32 (node.get .currentTerm)) := by
            constructor
            · rintro ⟨hr, hsrc, res, rfl, hterm⟩
              have hc : code = .respAppendEnt := Rpc.code_of_unpack hrpc
              subst hc
              obtain ⟨res', hres', heq⟩ := Option.map_eq_some_iff.mp hrpc
              cases heq
              exact ⟨hr, hsrc, hval, res, hres', hterm⟩
            · rintro ⟨hr, hsrc, heq, res, hres, hterm⟩
              rw [heq, RpcCode.ofVal_val] at hcode
              obtain rfl := Option.some.inj hcode
              rw [Rpc.unpack, hres] at hrpc
              exact ⟨hr, hsrc, res, (Option.some.inj hrpc).symm, hterm⟩
          rw [hiff]
          exact ⟨fun h => h.2.1, fun h => ⟨pkt.unpackTouches_inBounds code, h, hsends⟩⟩

end Node

end

/-- A leader of three nodes in term 1. -/
def leaderOfThree : Node Disk :=
  { raftCreate (.plain 3 0) ⟨1, 0, []⟩ with role := .leader }

/-- A packet to it, whose payload starts with the bytes of a response. -/
def responseFrom (src : ℕ) : WirePkt :=
  (rpcPackAppendEntriesRes .blank 0 src ⟨1, 0, 1⟩).2

theorem tables_leaderOfThree : Tables leaderOfThree := ⟨rfl, rfl⟩

theorem handling_in_bounds_member :
    AllInBounds leaderOfThree (leaderOfThree.touches ⟨0, 0⟩ (responseFrom 2)) :=
  (Node.handling_in_bounds ⟨0, 0⟩ tables_leaderOfThree (responseFrom 2)).mpr
    fun h => absurd h.2.1 (by decide)

/-- The same response, with the id of a client in its header. -/
theorem match_index_out_of_bounds :
    Tables leaderOfThree ∧
      Access.matchIndex 7 ∈ leaderOfThree.touches ⟨0, 0⟩ (responseFrom 7) ∧
      ¬(Access.matchIndex 7).InBounds leaderOfThree := by
  refine ⟨tables_leaderOfThree, by decide +kernel, fun h => ?_⟩
  have hlt : 7 < leaderOfThree.matchIndex.length := h
  exact absurd hlt (by decide)

end GeoRaft
