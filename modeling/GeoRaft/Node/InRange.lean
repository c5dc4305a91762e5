import Mathlib.Data.Finset.Card
import Mathlib.Data.Finset.Range
import Mathlib.Data.List.Basic
import GeoRaft.Node.Raft

/-!
What the functions of a node compute as long as its log is short enough for the
type `int` of `length`. An index `prev_log_idx` on the wire is a wrapped
predecessor, so a position `k` of a log, counted from 0, travels as
`u32 (k - 1)`; the lemmas turn every such number back into its position.
-/

namespace GeoRaft

open Word

/-- The term of the entry before position `k`, 0 if there is none. -/
def termBefore (l : List LogEntry) (k : ℕ) : ℕ :=
  ((l.take k).getLast?.map LogEntry.term).getD 0

@[simp] theorem termBefore_zero (l : List LogEntry) : termBefore l 0 = 0 := rfl

theorem termBefore_succ {l : List LogEntry} {k : ℕ} {e : LogEntry} (h : l[k]? = some e) :
    termBefore l (k + 1) = e.term := by
  rw [termBefore, List.take_add_one, h]
  simp

namespace Node

variable {n : Node Disk}

theorem logLength_eq (h : n.store.log.length < 2 ^ 31) : n.logLength = n.store.log.length := by
  rw [logLength, Disk.storage_length, i32_of_nat h]

theorem logRead_eq {k : ℕ} (hk : k < 2 ^ 31) : n.logRead k = n.store.log[k]? := by
  rw [logRead, Disk.storage_read, Disk.read, u32_of_nat (by omega)]
  split
  · rename_i hcond
    rw [List.getElem?_eq_none (by omega)]
  · rfl

theorem logRead_some {idx : ℤ} {e : LogEntry} (hlt : idx < 2 ^ 31) (h : n.logRead idx = some e) :
    ∃ k : ℕ, idx = k ∧ n.store.log[k]? = some e := by
  rcases lt_or_ge idx 0 with hneg | hpos
  · rw [logRead, Disk.storage_read, Disk.read, if_pos (.inl hneg)] at h
    cases h
  · obtain ⟨k, rfl⟩ := Int.eq_ofNat_of_zero_le hpos
    exact ⟨k, rfl, by rw [← logRead_eq (by omega), h]⟩

theorem raftGetLogTerm_eq (h : n.store.log.length < 2 ^ 31) {k : ℕ} {e : LogEntry}
    (hk : n.store.log[k]? = some e) : n.raftGetLogTerm k = e.term := by
  have hlt : k < n.store.log.length := (List.getElem?_eq_some_iff.mp hk).1
  rw [raftGetLogTerm, if_neg (by omega), logLength_eq h, if_neg (by omega),
    logRead_eq (by omega), hk]

theorem raftGetLogTerm_pred (h : n.store.log.length < 2 ^ 31) {k : ℕ}
    (hk : k ≤ n.store.log.length) : n.raftGetLogTerm ((k : ℤ) - 1) = termBefore n.store.log k := by
  cases k with
  | zero => rfl
  | succ k =>
      have he : n.store.log[k]? = some n.store.log[k] := List.getElem?_eq_getElem (by omega)
      rw [termBefore_succ he, Nat.cast_succ, add_sub_cancel_right]
      exact raftGetLogTerm_eq h he

theorem raftGetLogTerm_last (h : n.store.log.length < 2 ^ 31) :
    n.raftGetLogTerm (i32 (n.logLength - 1)) = termBefore n.store.log n.store.log.length := by
  rw [logLength_eq h, i32_of_fits (by omega) (by omega)]
  exact raftGetLogTerm_pred h le_rfl

/-! ### The requests of a leader -/

theorem appendEntriesReqTo_prevLogTerm (h : n.store.log.length < 2 ^ 31) {i : ℕ}
    (hx : n.nextIndex.getD i 0 ≤ n.store.log.length) (term : ℕ) (entries : List LogEntry) :
    (n.appendEntriesReqTo term i entries).prevLogTerm =
      termBefore n.store.log (n.nextIndex.getD i 0) := by
  simp only [appendEntriesReqTo]
  rw [i32_of_nat (by omega), i32_of_fits (by omega) (by omega)]
  exact raftGetLogTerm_pred h hx

theorem nToSend_eq (h : n.store.log.length < 2 ^ 31) {i : ℕ}
    (hx : n.nextIndex.getD i 0 ≤ n.store.log.length) :
    n.nToSend n.logLength i =
      (min maxAppendEntriesN (n.store.log.length - n.nextIndex.getD i 0) : ℕ) := by
  rw [nToSend, logLength_eq h, i32_of_nat (by omega), i32_of_fits (by omega) (by omega)]
  unfold maxAppendEntriesN
  split <;> split <;> omega

/-- What is sent is the log from `next_index` on, up to the cap. -/
theorem entriesFor_eq (h : n.store.log.length < 2 ^ 31) {i : ℕ}
    (hx : n.nextIndex.getD i 0 ≤ n.store.log.length) :
    n.entriesFor n.logLength i =
      (n.store.log.drop (n.nextIndex.getD i 0)).take maxAppendEntriesN := by
  rw [entriesFor, nToSend_eq h hx, Int.toNat_natCast]
  generalize n.nextIndex.getD i 0 = x at hx ⊢
  apply List.ext_getElem?
  intro k
  by_cases hk : k < min maxAppendEntriesN (n.store.log.length - x)
  · have hlt : x + k < n.store.log.length := by omega
    rw [List.getElem?_map, List.getElem?_range hk, List.getElem?_take_of_lt (by omega),
      List.getElem?_drop, Option.map_some, i32_of_nat (by omega), i32_of_fits (by omega) (by omega),
      ← Nat.cast_add, logRead_eq (by omega), List.getElem?_eq_getElem hlt]
    rfl
  · rw [List.getElem?_eq_none (by simp; omega), List.getElem?_eq_none (by simp; omega)]

/-! ### The request a follower handles -/

section Request

variable {req : AppendEntriesReq} {k : ℕ}

theorem prevMatches_iff (h : n.store.log.length < 2 ^ 31) (hk : k ≤ 2 ^ 31)
    (hreq : req.prevLogIdx = u32 ((k : ℤ) - 1)) :
    n.prevMatches n.logLength req ↔
      k ≤ n.store.log.length ∧ termBefore n.store.log k = req.prevLogTerm := by
  rw [prevMatches, hreq, i32_u32_pred hk, logLength_eq h]
  constructor
  · intro hnot
    push Not at hnot
    have hle : k ≤ n.store.log.length := by omega
    exact ⟨hle, by rw [← raftGetLogTerm_pred h hle, hnot.2]⟩
  · rintro ⟨hle, hterm⟩
    rw [raftGetLogTerm_pred h hle, hterm]
    push Not
    exact ⟨by omega, rfl⟩

theorem newIdx_eq (hk : k < 2 ^ 31) (hreq : req.prevLogIdx = u32 ((k : ℤ) - 1)) :
    u32 ((req.prevLogIdx : ℤ) + 1) = k := by
  have := u32_pred_add (n := k) (k := 1) (by omega) (by omega)
  rw [hreq]
  exact_mod_cast this

theorem lastNewEntryIdx_eq {m : ℕ} (hk : k + m < 2 ^ 31)
    (hreq : req.prevLogIdx = u32 ((k : ℤ) - 1)) :
    i32 (u32 ((req.prevLogIdx : ℤ) + m)) = (k + m : ℕ) - 1 := by
  rw [hreq, i32_u32]
  unfold i32 u32
  omega

end Request

/-! ### Writing the log -/

theorem logWrite_end (h : n.store.log.length < 2 ^ 31) (entry : LogEntry) (event : Option Event) :
    (n.logWrite n.store.log.length entry event).store =
      { n.store with log := n.store.log ++ [entry] } := by
  show (Storage.write n.store.log.length entry n.store).2 = _
  rw [Disk.storage_write, Disk.write, u32_of_nat (by omega), if_neg (by omega), if_pos rfl]

theorem appendLogEntry_eq (h : n.store.log.length < 2 ^ 31) (entry : LogEntry) :
    n.appendLogEntry entry =
      n.logWrite n.store.log.length entry (some (.accept n.store.log.length entry)) := by
  unfold appendLogEntry
  rw [logLength_eq h, if_neg (by omega), Int.toNat_natCast]

theorem appendLogEntry_store (h : n.store.log.length < 2 ^ 31) (entry : LogEntry) :
    (n.appendLogEntry entry).store = { n.store with log := n.store.log ++ [entry] } := by
  rw [appendLogEntry_eq h, logWrite_end h]

/-- What a leader stores for a client request. -/
def entryOf (n : Node Disk) (req : ProcReq) : LogEntry where
  term := n.store.currentTerm
  clientId := req.clientId
  cmdSeqno := req.cmdSeqno
  cmd := req.cmd

theorem handleProcRequest_eq (h : n.store.currentTerm < 2 ^ 31) (hr : n.role = .leader)
    (req : ProcReq) (src : ℕ) :
    n.handleProcRequest req src =
      ((n.appendLogEntry (n.entryOf req)).recordOutstanding req n.logLength).broadcastAppendEntries := by
  rw [handleProcRequest, if_neg (not_not.mpr hr), entryOf]
  rw [get_currentTerm, u32_i32, u32_of_nat (by omega)]

theorem logRemoveLastN_store (h : n.store.log.length < 2 ^ 31) {k : ℕ}
    (hk : k < n.store.log.length) :
    (n.logRemoveLastN ((n.store.log.length : ℤ) - k)).store =
      { n.store with log := n.store.log.take k } := by
  show (Storage.removeLastN ((n.store.log.length : ℤ) - k) n.store).2 = _
  have hcast : ((n.store.log.length : ℤ) - k) = ((n.store.log.length - k : ℕ) : ℤ) := by omega
  rw [Disk.storage_removeLastN, Disk.removeLastN, if_neg (by omega), hcast,
    u32_of_nat (by omega), if_neg (by omega)]
  dsimp only
  rw [u32_of_nat (by omega), Nat.sub_sub_self hk.le]

/-- One turn of the loop that stores entries, at position `k + j` of the log. -/
theorem storeEntries_cons (h : n.store.log.length < 2 ^ 31) {k j : ℕ}
    (ha : k + j ≤ n.store.log.length) (entry : LogEntry) (entries : List LogEntry) :
    storeEntries k j n.store.log.length (entry :: entries) n =
      if k + j < n.store.log.length then
        if n.raftGetLogTerm (k + j : ℕ) ≠ entry.term then
          storeEntries k (j + 1) (k + (j + 1) : ℕ) entries
            ((n.logRemoveLastN ((n.store.log.length : ℤ) - (k + j : ℕ))).logWrite (k + j : ℕ) entry)
        else storeEntries k (j + 1) n.store.log.length entries n
      else
        storeEntries k (j + 1) (k + (j + 1) : ℕ) entries
          (n.logWrite n.store.log.length entry) := by
  have hidx : u32 ((k : ℤ) + j) = k + j := by
    exact_mod_cast u32_of_nat (n := k + j) (by omega)
  have hlen : u32 (n.store.log.length : ℤ) = n.store.log.length := u32_of_nat (by omega)
  have hint : i32 ((k + j : ℕ) : ℤ) = (k + j : ℕ) := i32_of_nat (by omega)
  rw [storeEntries]
  dsimp only
  rw [hidx, hlen, hint, ← Nat.cast_succ, Nat.succ_eq_add_one, add_assoc]
  rcases eq_or_lt_of_le ha with heq | hlt
  · rw [if_neg heq.not_lt, if_neg heq.not_lt, ← heq, ← Nat.cast_succ, Nat.succ_eq_add_one, add_assoc]
  · rw [if_pos hlt, if_pos hlt]

/-! ### Votes and commits -/

/-- A voter that finds a log up to date has no later last term and, with the same
last term, no longer log. An empty log is announced by the largest index. -/
theorem logIsUpToDate_iff (h : n.store.log.length < 2 ^ 31) {m t : ℕ} (hm : m < 2 ^ 31) :
    n.logIsUpToDate (u32 ((m : ℤ) - 1)) t = true ↔
      termBefore n.store.log n.store.log.length < t ∨
        termBefore n.store.log n.store.log.length = t ∧
          (m = 0 ∨ n.store.log.length ≠ 0 ∧ n.store.log.length ≤ m) := by
  rw [logIsUpToDate, raftGetLogTerm_last h, logLength_eq h]
  generalize termBefore n.store.log n.store.log.length = lt
  have hidx : u32 ((n.store.log.length : ℤ) - 1) ≤ u32 ((m : ℤ) - 1) ↔
      m = 0 ∨ n.store.log.length ≠ 0 ∧ n.store.log.length ≤ m := by
    unfold u32
    omega
  split
  · simp [*]
  · split
    · rw [decide_eq_true_iff, hidx]
      simp [*]
    · simp [*]

theorem foldl_count {α : Type} (p : α → Prop) [DecidablePred p] (l : List α) (a : ℕ) :
    l.foldl (fun count x => if p x then count + 1 else count) a = a + l.countP p := by
  induction l generalizing a with
  | nil => simp
  | cons x l ih =>
      rw [List.foldl_cons, ih, List.countP_cons]
      split
      · simp_all
        omega
      · simp_all

/-- The nodes that `match_index` says hold entry `k`, and the node itself. -/
def replicas (n : Node Disk) (k : ℤ) : Finset ℕ :=
  insert n.config.id ((Finset.range n.config.numNodes).filter
    fun i => i ≠ n.config.id ∧ n.matchIndex.getD i (-1) ≥ k)

theorem replicaCount_eq (n : Node Disk) (k : ℤ) : n.replicaCount k = (n.replicas k).card := by
  rw [replicas, Finset.card_insert_of_notMem (by simp), replicaCount, foldl_count, add_comm]
  rw [List.countP_eq_length_filter]
  rfl

end Node

end GeoRaft
