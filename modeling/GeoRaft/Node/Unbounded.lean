import GeoRaft.Node.Merge
import GeoRaft.Wire.Codec

/-!
The indexes of `AppendEntries` without a word size.

An index is an integer here, and -1 is the index of no entry. The functions below are
the formulas of leader and follower over such indexes; what the program computes in
`int` and `uint32_t`, and sends in four octets, comes to the same.
-/

namespace GeoRaft

open Word

namespace Unbounded

/-- `raft_get_log_term`. -/
def termAt (log : List LogEntry) (k : ℤ) : ℕ :=
  if k < 0 ∨ k ≥ log.length then 0 else (log[k.toNat]?.map LogEntry.term).getD 0

/-- `log.write` and `log.remove_last_n`. -/
def writeAt (log : List LogEntry) (k : ℤ) (entry : LogEntry) : List LogEntry :=
  if k < 0 ∨ k > log.length then log else log.take k.toNat ++ entry :: log.drop (k.toNat + 1)

def removeLast (log : List LogEntry) (n : ℤ) : List LogEntry := log.take (log.length - n.toNat)

/-- A request, with `prev_log_idx` as the leader means it. -/
structure Request where
  prev : ℤ
  prevTerm : ℕ
  leaderCommit : ℤ
  entries : List LogEntry

/-- How many entries go into a request that takes at most `cap`. -/
def nToSend (cap len next : ℤ) : ℤ := max 0 (min cap (len - next))

/-- What a leader with this log sends from `next` on. -/
def request (cap : ℤ) (log : List LogEntry) (commitIndex next : ℤ) : Request where
  prev := next - 1
  prevTerm := termAt log (next - 1)
  leaderCommit := commitIndex
  entries := (List.range (nToSend cap log.length next).toNat).map fun (j : ℕ) =>
    log.getD (next + j).toNat ⟨0, 0, 0, 0⟩

/-- The loop of the follower. -/
def store (prev : ℤ) : ℤ → ℤ → List LogEntry → List LogEntry → List LogEntry
  | _, _, [], log => log
  | i, logLen, entry :: entries, log =>
    let logIdx := prev + 1 + i
    if logIdx < logLen then
      if termAt log logIdx ≠ entry.term then
        store prev (i + 1) (logIdx + 1) entries
          (writeAt (removeLast log (logLen - logIdx)) logIdx entry)
      else store prev (i + 1) logLen entries log
    else store prev (i + 1) (logLen + 1) entries (writeAt log logIdx entry)

structure Outcome where
  log : List LogEntry
  commitIndex : ℤ
  newMatchIndex : ℤ

/-- What a follower with this log makes of a request, unless it refuses. -/
def handle (log : List LogEntry) (commitIndex : ℤ) (req : Request) : Option Outcome :=
  if req.prev ≥ log.length ∨ termAt log req.prev ≠ req.prevTerm then none
  else
    let lastNewEntryIdx := req.prev + req.entries.length
    some {
      log := store req.prev 0 log.length req.entries log
      commitIndex :=
        if req.leaderCommit > commitIndex then min req.leaderCommit lastNewEntryIdx
        else commitIndex
      newMatchIndex := lastNewEntryIdx }

/-! ### Positions for indexes -/

theorem termAt_pred {log : List LogEntry} {k : ℕ} (h : k ≤ log.length) :
    termAt log ((k : ℤ) - 1) = termBefore log k := by
  cases k with
  | zero => rfl
  | succ k =>
      have hx : log[k]? = some log[k] := List.getElem?_eq_getElem (by omega)
      rw [Nat.cast_succ, add_sub_cancel_right, termBefore_succ hx, termAt, if_neg (by omega),
        Int.toNat_natCast, hx]
      rfl

theorem termAt_natCast {log : List LogEntry} {k : ℕ} (h : k < log.length) :
    termAt log k = log[k].term := by
  have hx : log[k]? = some log[k] := List.getElem?_eq_getElem h
  rw [termAt, if_neg (by omega), Int.toNat_natCast, hx]
  rfl

theorem writeAt_length (log : List LogEntry) (entry : LogEntry) :
    writeAt log log.length entry = log ++ [entry] := by
  rw [writeAt, if_neg (by omega), Int.toNat_natCast, List.take_length,
    List.drop_of_length_le (by omega)]

theorem removeLast_eq {log : List LogEntry} {k : ℕ} (h : k ≤ log.length) :
    removeLast log ((log.length : ℤ) - k) = log.take k := by
  rw [removeLast]
  congr 1
  omega

theorem store_cons {k j : ℕ} {log entries : List LogEntry} {entry : LogEntry}
    (h : k + j ≤ log.length) :
    store ((k : ℤ) - 1) j log.length (entry :: entries) log =
      if log[k + j]?.map LogEntry.term = some entry.term then
        store ((k : ℤ) - 1) (j + 1 : ℕ) log.length entries log
      else
        store ((k : ℤ) - 1) (j + 1 : ℕ) (log.take (k + j) ++ [entry]).length entries
          (log.take (k + j) ++ [entry]) := by
  have hidx : (k : ℤ) - 1 + 1 + j = (k + j : ℕ) := by omega
  have hnew : (((log.take (k + j) ++ [entry]).length : ℕ) : ℤ) = (k + j : ℕ) + 1 := by
    rw [List.length_append, List.length_take, min_eq_left h]
    rfl
  rw [store, hidx, hnew]
  rcases h.eq_or_lt with heq | hlt
  · have hnone : log[k + j]? = none := List.getElem?_eq_none (by omega)
    rw [if_neg (by omega), if_neg (by simp [hnone]), heq, List.take_length, writeAt_length]
    rfl
  · have hx : log[k + j]? = some log[k + j] := List.getElem?_eq_getElem hlt
    have hterm : log[k + j]?.map LogEntry.term = some entry.term ↔ log[k + j].term = entry.term := by
      rw [hx, Option.map_some, Option.some_inj]
    rw [if_pos (by omega), termAt_natCast hlt]
    split
    · rename_i hne
      rw [if_neg (mt hterm.mp hne), removeLast_eq h]
      have hlen : (log.take (k + j)).length = k + j := by rw [List.length_take, min_eq_left h]
      have hwrite := writeAt_length (log.take (k + j)) entry
      rw [hlen] at hwrite
      rw [hwrite]
      rfl
    · rename_i heq
      rw [if_pos (hterm.mpr (not_not.mp heq))]
      rfl

/-- The loop over integers merges, as the one of the program does. -/
theorem store_eq_mergeLog {k j : ℕ} {entries log : List LogEntry} (h : k + j ≤ log.length) :
    store ((k : ℤ) - 1) j log.length entries log = mergeLog log (k + j) entries := by
  induction entries generalizing j log with
  | nil => rfl
  | cons entry entries ih =>
      rw [store_cons h, mergeLog]
      split
      · rename_i hterm
        have hlt : k + j < log.length := by
          by_contra hge
          rw [List.getElem?_eq_none (by omega)] at hterm
          simp at hterm
        exact ih (j := j + 1) (by omega)
      · have hlen : (log.take (k + j) ++ [entry]).length = k + (j + 1) := by
          rw [List.length_append, List.length_take, min_eq_left h]
          rfl
        have hrest := @ih (j + 1) (log.take (k + j) ++ [entry]) hlen.ge
        have hend := mergeLog_end (log.take (k + j) ++ [entry]) entries
        rw [hlen] at hrest hend
        rw [hlen, hrest, hend, List.append_assoc, List.singleton_append]

/-- The entries of a request over integers, at positions. -/
theorem request_entries {log : List LogEntry} {next : ℕ} (h : next ≤ log.length) (cap : ℕ)
    (commitIndex : ℤ) :
    (request cap log commitIndex next).entries = (log.drop next).take cap := by
  have hn : (nToSend cap log.length next).toNat = min cap (log.length - next) := by
    unfold nToSend
    omega
  rw [request]
  dsimp only
  rw [hn]
  apply List.ext_getElem?
  intro k
  by_cases hk : k < min cap (log.length - next)
  · have hpos : ((next : ℤ) + k).toNat = next + k := by omega
    have hx : log[next + k]? = some log[next + k] := List.getElem?_eq_getElem (by omega)
    rw [List.getElem?_map, List.getElem?_range hk, List.getElem?_take_of_lt (by omega),
      List.getElem?_drop, Option.map_some, hpos, hx, List.getD_eq_getElem?_getD, hx]
    rfl
  · rw [List.getElem?_eq_none (by simp; omega), List.getElem?_eq_none (by simp; omega)]

/-- The request of the program is the one over integers. -/
structure Encodes (req : AppendEntriesReq) (x : Request) : Prop where
  wrapped : req.prevLogIdx = u32 x.prev
  prev : i32 req.prevLogIdx = x.prev
  prevTerm : req.prevLogTerm = x.prevTerm
  leaderCommit : req.leaderCommit = x.leaderCommit
  entries : req.entries = x.entries

end Unbounded

namespace Node

open Unbounded

variable {l : Node Disk} {i : ℕ} {cap : ℤ} {req : AppendEntriesReq}

/-! ### The leader -/

/-- `req` goes to `i` when the node broadcasts entries, or when it broadcasts none. -/
inductive Requests (l : Node Disk) (i : ℕ) : ℤ → AppendEntriesReq → Prop
  | entries {req : AppendEntriesReq}
      (h : .send ⟨i, l.config.id, .appendEntriesReq req⟩ ∈
        ({ l with script := [] } : Node Disk).broadcastAppendEntries.script) :
      Requests l i maxAppendEntriesN req
  | heartbeat {req : AppendEntriesReq}
      (h : .send ⟨i, l.config.id, .appendEntriesReq req⟩ ∈
        ({ l with script := [] } : Node Disk).sendHeartbeats.script) : Requests l i 0 req

/-- A log with room for one more batch, indexes inside it, and fields of their types. -/
structure Leads (l : Node Disk) (i : ℕ) : Prop where
  length : l.store.log.length < 2 ^ 31 - 32
  next : l.nextIndex.getD i 0 ≤ l.store.log.length
  commit : -1 ≤ l.commitIndex ∧ l.commitIndex < l.store.log.length
  id : l.config.id < 2 ^ 32
  fits : ∀ entry ∈ l.store.log, entry.Fits

theorem mem_forOthers {σ : Type} {n : Node σ} {rpc : Node σ → ℕ → Rpc} {pkt : Pkt}
    (h : .send pkt ∈ (n.forOthers fun m i => m.send i (rpc m i)).script) :
    .send pkt ∈ n.script ∨ ∃ s i, pkt = ⟨i, n.config.id, rpc { n with script := s } i⟩ := by
  revert h
  refine (forOthers_induct (motive := fun _ m => m = { n with script := m.script } ∧
    (.send pkt ∈ m.script → .send pkt ∈ n.script ∨
      ∃ s i, pkt = ⟨i, n.config.id, rpc { n with script := s } i⟩)) n ⟨rfl, .inl⟩ ?_).2
  rintro k m - ⟨hm, hsent⟩
  split
  · exact ⟨hm, hsent⟩
  · refine ⟨by rw [hm]; rfl, fun hmem => ?_⟩
    rcases List.mem_append.mp hmem with hmem | hmem
    · exact hsent hmem
    · rw [List.mem_singleton, Effect.send.injEq] at hmem
      refine .inr ⟨m.script, k, ?_⟩
      rw [hmem, ← hm, hm]

section

variable {σ : Type} [Storage σ]

theorem appendEntriesReqTo_script (l : Node σ) (s : List (Effect σ)) (t i : ℕ)
    (entries : List LogEntry) :
    ({ l with script := s } : Node σ).appendEntriesReqTo t i entries =
      l.appendEntriesReqTo t i entries := rfl

theorem entriesFor_script (l : Node σ) (s : List (Effect σ)) (logLen : ℤ) (i : ℕ) :
    ({ l with script := s } : Node σ).entriesFor logLen i = l.entriesFor logLen i := rfl

theorem logLength_script (l : Node σ) (s : List (Effect σ)) :
    ({ l with script := s } : Node σ).logLength = l.logLength := rfl

end

/-- The request as the node builds it, whatever its term. -/
theorem Requests.eq (h : l.Requests i cap req) : ∃ t < 2 ^ 32,
    (cap = maxAppendEntriesN ∧ req = l.appendEntriesReqTo t i (l.entriesFor l.logLength i)) ∨
      cap = 0 ∧ req = l.appendEntriesReqTo t i [] := by
  cases h with
  | entries h =>
      rw [broadcastAppendEntries] at h
      split at h
      · exact absurd h List.not_mem_nil
      · rcases mem_forOthers h with h | ⟨s, k, heq⟩
        · exact absurd h List.not_mem_nil
        · obtain ⟨rfl, -, hreq⟩ := Pkt.mk.inj heq
          have hreq := Rpc.appendEntriesReq.inj hreq
          rw [appendEntriesReqTo_script, appendEntriesReqTo_script, entriesFor_script,
            entriesFor_script, logLength_script] at hreq
          exact ⟨_, u32_lt _, .inl ⟨rfl, hreq⟩⟩
  | heartbeat h =>
      rw [sendHeartbeats] at h
      split at h
      · exact absurd h List.not_mem_nil
      · rcases mem_forOthers h with h | ⟨s, k, heq⟩
        · exact absurd h List.not_mem_nil
        · obtain ⟨rfl, -, hreq⟩ := Pkt.mk.inj heq
          have hreq := Rpc.appendEntriesReq.inj hreq
          rw [appendEntriesReqTo_script, appendEntriesReqTo_script] at hreq
          exact ⟨_, u32_lt _, .inr ⟨rfl, hreq⟩⟩

theorem Requests.encodes (hl : l.Leads i) (h : l.Requests i cap req) :
    Encodes req (request cap l.store.log l.commitIndex (l.nextIndex.getD i 0)) := by
  have hlen := hl.length
  have hnext := hl.next
  obtain ⟨t, -, hreq⟩ := h.eq
  have hwrap : ((l.nextIndex.getD i 0 : ℕ) : ℤ) - 1 = i32 (u32 ((l.nextIndex.getD i 0 : ℕ) - 1)) :=
    (i32_u32_pred (by omega)).symm
  have hterm : ∀ t entries, (l.appendEntriesReqTo t i entries).prevLogTerm =
      termAt l.store.log ((l.nextIndex.getD i 0 : ℕ) - 1) := by
    intro t entries
    rw [appendEntriesReqTo_prevLogTerm (by omega) hnext, termAt_pred hnext]
  rcases hreq with ⟨rfl, rfl⟩ | ⟨rfl, rfl⟩
  · refine ⟨rfl, hwrap.symm, hterm _ _, rfl, ?_⟩
    rw [request_entries hnext]
    exact entriesFor_eq (by omega) hnext
  · refine ⟨rfl, hwrap.symm, hterm _ _, rfl, ?_⟩
    have hnone := request_entries hnext 0 l.commitIndex
    rw [List.take_zero, Nat.cast_zero] at hnone
    rw [hnone]
    rfl

theorem termBefore_lt {log : List LogEntry} (h : ∀ entry ∈ log, entry.Fits) {k : ℕ}
    (hk : k ≤ log.length) : termBefore log k < 2 ^ 32 := by
  cases k with
  | zero => exact Nat.two_pow_pos 32
  | succ k =>
      have hx : log[k]? = some log[k] := List.getElem?_eq_getElem (by omega)
      rw [termBefore_succ hx]
      exact (h _ (List.getElem_mem _)).1

/-- The request passes through the packet. -/
theorem Requests.unpacked (hl : l.Leads i) (h : l.Requests i cap req) (pkt : WirePkt) (dst src : ℕ) :
    Rpc.unpack (Rpc.pack pkt dst src (.appendEntriesReq req)).2 .callAppendEnt =
      some (.appendEntriesReq req) := by
  have hlen := hl.length
  have hnext := hl.next
  have hcommit := hl.commit
  have henc := h.encodes hl
  obtain ⟨t, ht, hreq⟩ := h.eq
  have hentries : req.entries = (l.store.log.drop (l.nextIndex.getD i 0)).take cap.toNat := by
    rw [henc.entries]
    rcases hreq with ⟨rfl, -⟩ | ⟨rfl, -⟩
    · exact request_entries hnext _ _
    · exact request_entries hnext 0 _
  have hfit : (Rpc.appendEntriesReq req).Fits := by
    refine ⟨?_, ?_, ?_, ?_, ?_, ?_⟩
    · rcases hreq with ⟨-, rfl⟩ | ⟨-, rfl⟩ <;> exact ht
    · rcases hreq with ⟨-, rfl⟩ | ⟨-, rfl⟩ <;> exact hl.id
    · rw [henc.wrapped]
      exact u32_lt _
    · rw [henc.prevTerm]
      show termAt _ _ < _
      rw [termAt_pred hnext]
      exact termBefore_lt hl.fits hnext
    · rw [henc.leaderCommit]
      show -2 ^ 31 ≤ l.commitIndex ∧ l.commitIndex < 2 ^ 31
      omega
    · intro entry hmem
      rw [hentries] at hmem
      exact hl.fits _ (List.mem_of_mem_drop (List.mem_of_mem_take hmem))
  have hcap : cap.toNat ≤ maxAppendEntriesN := by
    rcases hreq with ⟨rfl, -⟩ | ⟨rfl, -⟩ <;> simp
  have hmany : (Rpc.appendEntriesReq req).nEntries ≤ maxAppendEntriesN := by
    show req.entries.length ≤ _
    rw [hentries, List.length_take]
    omega
  exact Rpc.unpack_pack pkt dst src hfit hmany

/-! ### The follower, and the leader again -/

variable {f : Node Disk}

/-- How far the follower's log agrees with the request is what it answers with. -/
structure Settles (env : Env) (f : Node Disk) (req : AppendEntriesReq) (out : Outcome)
    (newMatch : ℕ) : Prop where
  log : (f.handleAppendEntriesRequest env req).store.log = out.log
  commitIndex : (f.handleAppendEntriesRequest env req).commitIndex = out.commitIndex
  answers : f.AnswersWith env req newMatch 1
  unpacked : ∀ pkt dst src,
    Rpc.unpack (Rpc.pack pkt dst src
        (.appendEntriesRes ⟨u32 (f.get .currentTerm), newMatch, 1⟩)).2 .respAppendEnt =
      some (.appendEntriesRes ⟨u32 (f.get .currentTerm), newMatch, 1⟩)
  credited : ∀ (env : Env) (l : Node Disk) (srcId : ℕ) (res : AppendEntriesRes),
    l.role = .leader → res.term = u32 (l.get .currentTerm) → res.newMatchIndex = newMatch →
      res.success = 1 →
      (l.handleAppendEntriesResponse env srcId res).matchIndex =
        l.matchIndex.set srcId out.newMatchIndex

/-- What a refusal leaves. -/
structure Refuses (env : Env) (f : Node Disk) (req : AppendEntriesReq) : Prop where
  log : (f.handleAppendEntriesRequest env req).store.log = f.store.log
  commitIndex : (f.handleAppendEntriesRequest env req).commitIndex = f.commitIndex
  answers : f.AnswersWith env req 0 0

theorem Requests.nEntries_le (hl : l.Leads i) (h : l.Requests i cap req) :
    l.nextIndex.getD i 0 + req.nEntries < 2 ^ 31 := by
  have hlen := hl.length
  have hnext := hl.next
  obtain ⟨t, -, ⟨-, rfl⟩ | ⟨-, rfl⟩⟩ := h.eq
  · show _ + (l.entriesFor l.logLength i).length < _
    rw [entriesFor_eq (by omega) hnext, List.length_take, List.length_drop]
    unfold maxAppendEntriesN
    omega
  · show _ + 0 < _
    omega

/-- The check on the entry before the new ones. -/
theorem Requests.handle_eq_none_iff (hl : l.Leads i) (h : l.Requests i cap req)
    (hf : f.store.log.length < 2 ^ 31) :
    Unbounded.handle f.store.log f.commitIndex
        (request cap l.store.log l.commitIndex (l.nextIndex.getD i 0)) = none ↔
      ¬f.prevMatches f.logLength req := by
  have hlen := hl.length
  have hnext := hl.next
  have henc := h.encodes hl
  rw [prevMatches_iff hf (by omega) henc.wrapped, henc.prevTerm, Unbounded.handle]
  generalize l.nextIndex.getD i 0 = k at hnext
  show (if (k : ℤ) - 1 ≥ _ ∨ termAt _ ((k : ℤ) - 1) ≠ _ then _ else _) = _ ↔ _
  by_cases hk : k ≤ f.store.log.length
  · rw [termAt_pred hk]
    by_cases hterm : termBefore f.store.log k = (request cap l.store.log l.commitIndex k).prevTerm
    · rw [if_neg (by push Not; exact ⟨by omega, hterm⟩)]
      simp [hk, hterm]
    · rw [if_pos (.inr hterm)]
      simp [hterm]
  · rw [if_pos (.inl (by omega))]
    simp [hk]

/-- A leader credits the sender of a success in its own term. -/
theorem handleAppendEntriesResponse_credits (env : Env) {l : Node Disk} (srcId : ℕ)
    {res : AppendEntriesRes} (hr : l.role = .leader) (ht : res.term = u32 (l.get .currentTerm))
    (hs : res.success ≠ 0) :
    (l.handleAppendEntriesResponse env srcId res).matchIndex =
      l.matchIndex.set srcId (i32 res.newMatchIndex) := by
  have hidles : Idles (l.credit srcId res) (l.handleAppendEntriesResponse env srcId res) := by
    unfold handleAppendEntriesResponse
    dsimp only
    split
    · omega
    split
    · rename_i hcond
      exact absurd hcond (by simp [hr, ht])
    exact commitLoop_idles _ _ (l.credit srcId res)
  rw [hidles.1.matchIndex, credit_matchIndex]

theorem commitAfter_eq (f : Node Disk) {last : ℤ}
    (h : i32 (u32 (req.prevLogIdx + req.nEntries)) = last) :
    f.commitAfter req =
      if req.leaderCommit > f.commitIndex then min req.leaderCommit last else f.commitIndex := by
  have hmin : (f.committing req).commitIndex = min req.leaderCommit last := by
    rw [committing, h, min_def]
    dsimp only
    split <;> split <;> omega
  rw [commitAfter, hmin]

/-- What the request makes of a follower is what the formulas over integers say. -/
theorem Requests.settles (hl : l.Leads i) (h : l.Requests i cap req) (env : Env)
    (hf : f.store.log.length < 2 ^ 31) (hread : 0 ≤ f.get .currentTerm)
    (hterm : u32 (f.get .currentTerm) ≤ req.term) :
    (Unbounded.handle f.store.log f.commitIndex
        (request cap l.store.log l.commitIndex (l.nextIndex.getD i 0)) = none → f.Refuses env req) ∧
    ∀ out, Unbounded.handle f.store.log f.commitIndex
        (request cap l.store.log l.commitIndex (l.nextIndex.getD i 0)) = some out →
      ∃ newMatch, f.Settles env req out newMatch := by
  have hlen := hl.length
  have hnext := hl.next
  have hfit := h.nEntries_le hl
  have henc := h.encodes hl
  have hnone := h.handle_eq_none_iff hl hf
  have hwrapped : req.prevLogIdx = u32 ((l.nextIndex.getD i 0 : ℕ) - 1) := henc.wrapped
  have hprev : req.prevLogIdx = 2 ^ 32 - 1 ∨ req.prevLogIdx < 2 ^ 31 := by
    rw [hwrapped]
    unfold u32
    omega
  obtain ⟨n, hlog, hcfg, hci, heq⟩ := handleAppendEntriesRequest_accepts env f hread hterm
  have hn := acceptAppendEntries_merges env n (u32 (f.get .currentTerm)) (by rwa [hlog]) hprev
  rw [← heq, hlog, hcfg, commitAfter_congr req hci, hci, ← prevMatches_iff_present hf hprev] at hn
  constructor
  · intro hrefused
    obtain ⟨m, hmlog, hmcfg, hmci, hm⟩ := hn.1 (hnone.mp hrefused)
    refine ⟨by rw [hm, ← hmlog]; rfl, by rw [hm, ← hmci]; rfl, m.script, ?_⟩
    rw [hm, ← hmcfg]
    rfl
  · intro out hout
    have hyes : f.prevMatches f.logLength req := by
      by_contra hno
      rw [hnone.mpr hno] at hout
      exact absurd hout (by simp)
    have hidx := newIdx_eq (k := l.nextIndex.getD i 0) (by omega) hwrapped
    have hlast := lastNewEntryIdx_eq (m := req.nEntries) hfit hwrapped
    rw [hidx] at hn
    obtain ⟨m, hmlog, hmcfg, hmci, hm⟩ := hn.2 hyes hfit
    have hle := ((prevMatches_iff hf (by omega) hwrapped).mp hyes).1
    -- the outcome of the formulas
    rw [Unbounded.handle] at hout
    split at hout
    · exact absurd hout (by simp)
    obtain rfl := Option.some.inj hout
    rw [← henc.entries, ← henc.leaderCommit]
    have hmatch : i32 (u32 (req.prevLogIdx + req.nEntries)) =
        (l.nextIndex.getD i 0 : ℕ) - 1 + req.entries.length := by
      rw [hlast, Nat.cast_add]
      show _ = _ - 1 + (req.nEntries : ℤ)
      omega
    refine ⟨u32 (req.prevLogIdx + req.nEntries), ?_, ?_, ⟨m.script, ?_⟩, ?_, ?_⟩
    · have hstore := @store_eq_mergeLog (l.nextIndex.getD i 0) 0 req.entries f.store.log hle
      rw [hm]
      exact hmlog.trans hstore.symm
    · rw [hm]
      exact hmci.trans (commitAfter_eq f hmatch)
    · rw [hm, ← hmcfg]
      rfl
    · intro pkt dst src
      have hfits : (Rpc.appendEntriesRes
          ⟨u32 (f.get .currentTerm), u32 (req.prevLogIdx + req.nEntries), 1⟩).Fits :=
        ⟨u32_lt _, u32_lt _, by norm_num⟩
      exact Rpc.unpack_pack pkt dst src hfits (Nat.zero_le _)
    · intro env l' srcId res hr ht hres hs
      rw [handleAppendEntriesResponse_credits env srcId hr ht (by omega), hres, hmatch]
      rfl

/-- No index wraps on its way from the leader to the follower and back. -/
theorem indexes_do_not_wrap (hl : l.Leads i) (h : l.Requests i cap req) :
    Encodes req (request cap l.store.log l.commitIndex (l.nextIndex.getD i 0)) ∧
      (∀ pkt dst src, Rpc.unpack (Rpc.pack pkt dst src (.appendEntriesReq req)).2 .callAppendEnt =
        some (.appendEntriesReq req)) ∧
      ∀ (env : Env) (f : Node Disk), f.store.log.length < 2 ^ 31 → 0 ≤ f.get .currentTerm →
        u32 (f.get .currentTerm) ≤ req.term →
        (Unbounded.handle f.store.log f.commitIndex
            (request cap l.store.log l.commitIndex (l.nextIndex.getD i 0)) = none →
          f.Refuses env req) ∧
        ∀ out, Unbounded.handle f.store.log f.commitIndex
            (request cap l.store.log l.commitIndex (l.nextIndex.getD i 0)) = some out →
          ∃ newMatch, f.Settles env req out newMatch :=
  ⟨h.encodes hl, h.unpacked hl, fun env _ hf hread hterm => h.settles hl env hf hread hterm⟩

/-- A leader of one committed entry, none of which node 1 has been sent. -/
def leaderOfOne : Node Disk :=
  { raftCreate (.plain 3 0) ⟨1, 0, [⟨1, 9, 0, 5⟩]⟩ with
    role := .leader
    commitIndex := 0
    nextIndex := [1, 0, 0] }

/-- The entry before the first one has index -1, also behind the packet. -/
theorem indexes_do_not_wrap_first :
    ∃ req, leaderOfOne.Requests 1 maxAppendEntriesN req ∧ req.prevLogIdx = 2 ^ 32 - 1 ∧
      i32 req.prevLogIdx = -1 ∧
      ((raftCreate (.plain 3 1) Disk.init).handleAppendEntriesRequest ⟨0, 0⟩ req).commitIndex = 0 := by
  have hl : leaderOfOne.Leads 1 := by
    refine ⟨by decide, by decide, by decide, by decide, ?_⟩
    intro entry hmem
    obtain rfl := List.mem_singleton.mp hmem
    exact ⟨by decide, by decide, by decide, by decide⟩
  have hreq : leaderOfOne.Requests 1 maxAppendEntriesN ⟨1, 0, 4294967295, 0, 0, [⟨1, 9, 0, 5⟩]⟩ :=
    .entries (by decide +kernel)
  obtain ⟨henc, -, hhandle⟩ := indexes_do_not_wrap hl hreq
  obtain ⟨-, hout⟩ := hhandle ⟨0, 0⟩ (raftCreate (.plain 3 1) Disk.init) (by decide)
    (by decide +kernel) (by decide +kernel)
  refine ⟨_, hreq, rfl, henc.prev, ?_⟩
  obtain ⟨newMatch, hsettles⟩ := hout ⟨[⟨1, 9, 0, 5⟩], 0, 0⟩ (by rfl)
  exact hsettles.commitIndex

end Node

end GeoRaft
