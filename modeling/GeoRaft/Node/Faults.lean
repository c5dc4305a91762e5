import GeoRaft.Node.Commit
import GeoRaft.Node.Effects

/-!
A node whose storage fails.

The handlers drop the codes of `set`, `write` and `remove_last_n` and go on as if the call
had done its work. A response says that an entry or a vote is stored when it is, unless a
call failed whose work was not done already.
-/

namespace GeoRaft

open Word

/-- Storage with the failures that are to come: a call whose turn it is to fail returns -1
and changes nothing. -/
structure Flaky where
  disk : Disk
  faults : List Bool
  deriving DecidableEq, Repr

namespace Flaky

/-- The call after the next `k` ones fails. -/
def fails (s : Flaky) (k : ℕ) : Bool := s.faults.getD k false

def attempt (s : Flaky) (r : ℤ × Disk) : ℤ × Flaky :=
  if s.fails 0 then (-1, { s with faults := s.faults.drop 1 })
  else (r.1, { disk := r.2, faults := s.faults.drop 1 })

instance : Storage Flaky where
  get f s := s.disk.get f
  set f v s := s.attempt (s.disk.set f v)
  length s := s.disk.length
  read idx s := s.disk.read idx
  write idx entry s := s.attempt (s.disk.write idx entry)
  removeLastN n s := s.attempt (s.disk.removeLastN n)

variable {s : Flaky} {r : ℤ × Disk}

theorem attempt_disk : (s.attempt r).2.disk = if s.fails 0 then s.disk else r.2 := by
  unfold attempt
  split <;> rfl

theorem attempt_fails (k : ℕ) : (s.attempt r).2.fails k = s.fails (k + 1) := by
  have hdrop : ∀ l : List Bool, (l.drop 1).getD k false = l.getD (k + 1) false := by
    intro l
    rw [List.getD_eq_getElem?_getD, List.getD_eq_getElem?_getD, List.getElem?_drop, Nat.add_comm]
  unfold attempt
  split <;> exact hdrop s.faults

theorem storage_get (f : PersistentField) (s : Flaky) : Storage.get f s = s.disk.get f := rfl

theorem storage_set (f : PersistentField) (v : ℕ) (s : Flaky) :
    Storage.set f v s = s.attempt (s.disk.set f v) := rfl

theorem storage_length (s : Flaky) : Storage.length s = s.disk.length := rfl

theorem storage_read (idx : ℤ) (s : Flaky) : Storage.read idx s = s.disk.read idx := rfl

theorem storage_write (idx : ℤ) (entry : LogEntry) (s : Flaky) :
    Storage.write idx entry s = s.attempt (s.disk.write idx entry) := rfl

theorem storage_removeLastN (n : ℤ) (s : Flaky) :
    Storage.removeLastN n s = s.attempt (s.disk.removeLastN n) := rfl

/-! ### One write -/

/-- A write at `pos` that does not fail, at an index that is an `int`. -/
def Lands (s : Flaky) (k pos : ℕ) : Prop := s.fails k = false ∧ pos < 2 ^ 31

instance (s : Flaky) (k pos : ℕ) : Decidable (s.Lands k pos) := inferInstanceAs (Decidable (_ ∧ _))

theorem disk_write {d : Disk} {pos : ℕ} (hpos : pos < 2 ^ 31) (hle : pos ≤ d.log.length)
    (entry : LogEntry) : (d.write (i32 pos) entry).2.log =
      if pos = d.log.length then d.log ++ [entry] else d.log.set pos entry := by
  rw [i32_of_nat hpos, Disk.write, u32_of_nat (by omega), if_neg (by omega)]
  split <;> rfl

/-- Outside the log, or with an index that is no `int`, nothing is written. -/
theorem disk_write_out {d : Disk} {pos : ℕ} (hpos : pos < 2 ^ 32)
    (h : 2 ^ 31 ≤ pos ∨ d.log.length < pos) (entry : LogEntry) :
    (d.write (i32 pos) entry).2 = d := by
  have hneg := i32_nonneg_iff hpos
  have hback := u32_i32 (pos : ℤ)
  rw [u32_of_nat hpos] at hback
  rw [Disk.write, hback, if_pos (by omega)]

/-- What a write leaves alone. -/
theorem write_ne {pos x : ℕ} (hpos : pos < 2 ^ 32) (hx : x ≠ pos) (entry : LogEntry) :
    (Storage.write (i32 pos) entry s).2.disk.log[x]? = s.disk.log[x]? := by
  rw [storage_write, attempt_disk]
  split
  · rfl
  · by_cases hout : 2 ^ 31 ≤ pos ∨ s.disk.log.length < pos
    · rw [disk_write_out hpos hout]
    · rw [disk_write (by omega) (by omega)]
      split
      · rename_i hend
        rw [List.getElem?_append]
        split
        · rfl
        · rw [List.getElem?_singleton, if_neg (by omega), List.getElem?_eq_none (by omega)]
      · exact List.getElem?_set_ne hx.symm

theorem write_self {pos : ℕ} (h : s.Lands 0 pos) (hle : pos ≤ s.disk.log.length) (entry : LogEntry) :
    (Storage.write (i32 pos) entry s).2.disk.log[pos]? = some entry := by
  rw [storage_write, attempt_disk, if_neg (by rw [h.1]; decide), disk_write h.2 hle]
  split
  · rename_i hend
    rw [hend, List.getElem?_concat_length]
  · exact List.getElem?_set_self (by omega)

theorem write_missed {pos : ℕ} (hpos : pos < 2 ^ 32) (h : ¬s.Lands 0 pos) (entry : LogEntry) :
    (Storage.write (i32 pos) entry s).2.disk = s.disk := by
  rw [storage_write, attempt_disk]
  split
  · rfl
  · rename_i hok
    refine disk_write_out hpos (.inl ?_) entry
    by_contra hlt
    exact h ⟨Bool.eq_false_iff.mpr hok, by omega⟩

theorem length_write {pos : ℕ} (hpos : pos < 2 ^ 32) (hlen : s.disk.log.length ≤ 2 ^ 31)
    (entry : LogEntry) : (Storage.write (i32 pos) entry s).2.disk.log.length ≤ 2 ^ 31 := by
  by_cases h : s.Lands 0 pos ∧ pos ≤ s.disk.log.length
  · rw [storage_write, attempt_disk, if_neg (by rw [h.1.1]; decide), disk_write h.1.2 h.2]
    have := h.1.2
    split
    · rw [List.length_append, List.length_singleton]
      omega
    · rwa [List.length_set]
  · rw [storage_write, attempt_disk]
    split
    · exact hlen
    · rename_i hok
      have hout : 2 ^ 31 ≤ pos ∨ s.disk.log.length < pos := by
        by_contra hno
        push Not at hno
        exact h ⟨⟨Bool.eq_false_iff.mpr hok, hno.1⟩, hno.2⟩
      rwa [disk_write_out hpos hout]

end Flaky

/-! ### The entries of a request -/

/-- The entries are in the log, from position `k` on. -/
def Holding (log : List LogEntry) (k : ℕ) (entries : List LogEntry) : Prop :=
  ∀ i entry, entries[i]? = some entry → log[k + i]? = some entry

/-- What holds of each element and the position it goes to, the first one aside. -/
theorem forall_getElem?_cons {α : Type} {P : ℕ → ℕ → α → Prop} {k : ℕ} {a : α} {l : List α} :
    (∀ i b, (a :: l)[i]? = some b → P i (k + i) b) ↔
      P 0 k a ∧ ∀ i b, l[i]? = some b → P (i + 1) (k + 1 + i) b := by
  have hshift : ∀ i, k + (i + 1) = k + 1 + i := fun i => by omega
  constructor
  · exact fun h => ⟨h 0 a rfl, fun i b hb => hshift i ▸ h (i + 1) b hb⟩
  · rintro ⟨h0, h⟩ i b hb
    cases i with
    | zero =>
        obtain rfl := Option.some.inj hb
        exact h0
    | succ i => exact hshift i ▸ h i b hb

theorem holding_cons {log : List LogEntry} {k : ℕ} {entry : LogEntry} {entries : List LogEntry} :
    Holding log k (entry :: entries) ↔ log[k]? = some entry ∧ Holding log (k + 1) entries :=
  forall_getElem?_cons (P := fun _ x e => log[x]? = some e)

namespace Flaky

variable {s : Flaky} {k : ℕ} {entry : LogEntry} {entries : List LogEntry}

/-- One write after the other. -/
def writes : ℕ → List LogEntry → Flaky → Flaky
  | _, [], s => s
  | k, entry :: entries, s => writes (k + 1) entries (Storage.write (i32 k) entry s).2

/-- The write of every entry lands, or the entry is there already. -/
def Written (s : Flaky) (k : ℕ) (entries : List LogEntry) : Prop :=
  ∀ i entry, entries[i]? = some entry → s.Lands i (k + i) ∨ s.disk.log[k + i]? = some entry

theorem written_cons : s.Written k (entry :: entries) ↔
    (s.Lands 0 k ∨ s.disk.log[k]? = some entry) ∧ ∀ i e, entries[i]? = some e →
      s.Lands (i + 1) (k + 1 + i) ∨ s.disk.log[k + 1 + i]? = some e :=
  forall_getElem?_cons (P := fun i x e => s.Lands i x ∨ s.disk.log[x]? = some e)

theorem writes_before {x : ℕ} (hfit : k + entries.length ≤ 2 ^ 32) (hx : x < k) :
    (writes k entries s).disk.log[x]? = s.disk.log[x]? := by
  induction entries generalizing k s with
  | nil => rfl
  | cons entry entries ih =>
      rw [List.length_cons] at hfit
      rw [writes, ih (by omega) (by omega)]
      exact write_ne (by omega) (by omega) entry

/-- A write that is missed is not made up for by a later one. -/
theorem writes_holding (hfit : k + entries.length ≤ 2 ^ 32) (hle : k ≤ s.disk.log.length) :
    Holding (writes k entries s).disk.log k entries ↔ s.Written k entries := by
  induction entries generalizing k s with
  | nil => exact iff_of_true (fun i e he => by simp at he) fun i e he => by simp at he
  | cons entry entries ih =>
      rw [List.length_cons] at hfit
      rw [holding_cons, written_cons, writes, writes_before (by omega) (Nat.lt_succ_self k)]
      -- what the other writes find
      have hrest : ∀ i e, ((Storage.write (i32 k) entry s).2.Lands i (k + 1 + i) ∨
          (Storage.write (i32 k) entry s).2.disk.log[k + 1 + i]? = some e) ↔
          (s.Lands (i + 1) (k + 1 + i) ∨ s.disk.log[k + 1 + i]? = some e) := by
        intro i e
        rw [write_ne (by omega) (by omega), Lands, Lands, storage_write, attempt_fails]
      have hothers : (Storage.write (i32 k) entry s).2.Written (k + 1) entries ↔
          ∀ i e, entries[i]? = some e →
            s.Lands (i + 1) (k + 1 + i) ∨ s.disk.log[k + 1 + i]? = some e :=
        forall_congr' fun i => forall_congr' fun e => imp_congr_right fun _ => hrest i e
      by_cases hland : s.Lands 0 k
      · have hself := write_self hland hle entry
        obtain ⟨hlt, -⟩ := List.getElem?_eq_some_iff.mp hself
        rw [ih (by omega) hlt, hothers]
        exact and_congr_left' (iff_of_true hself (.inl hland))
      · have hmiss := write_missed (by omega) hland entry
        rw [hmiss]
        by_cases hthere : s.disk.log[k]? = some entry
        · obtain ⟨hlt, -⟩ := List.getElem?_eq_some_iff.mp hthere
          rw [ih (by omega) (by rw [hmiss]; exact hlt), hothers]
          exact and_congr_left' (iff_of_true hthere (.inr hthere))
        · exact iff_of_false (fun h => hthere h.1) fun h => h.1.elim hland hthere

end Flaky

/-- What it takes for the entries of a request to be in the log behind the loop: an entry
that is skipped is the one of the log, and from the first other one on every write lands.
Only if the log is to be cut and is not can an entry be there without being written. -/
def Flaky.Sticks (s : Flaky) (k : ℕ) : List LogEntry → Prop
  | [] => True
  | entry :: entries =>
    if s.disk.log[k]?.map LogEntry.term = some entry.term then
      s.disk.log[k]? = some entry ∧ s.Sticks (k + 1) entries
    else if k < s.disk.log.length then
      ∀ i e, (entry :: entries)[i]? = some e →
        s.Lands (i + 1) (k + i) ∨ s.fails 0 = true ∧ s.disk.log[k + i]? = some e
    else ∀ i e, (entry :: entries)[i]? = some e → s.Lands i (k + i)

namespace Node

variable {n : Node Flaky} {k j : ℕ} {entries : List LogEntry}

open Flaky

theorem logWrite_flaky (n : Node Flaky) (idx : ℤ) (entry : LogEntry) :
    (n.logWrite idx entry).store = (Storage.write idx entry n.store).2 := rfl

theorem logRemoveLastN_flaky (n : Node Flaky) (k : ℤ) :
    (n.logRemoveLastN k).store = (Storage.removeLastN k n.store).2 := rfl

theorem logLength_flaky (h : n.store.disk.log.length < 2 ^ 31) :
    n.logLength = n.store.disk.log.length := by
  rw [logLength, storage_length, Disk.length, i32_of_nat h]

theorem raftGetLogTerm_flaky (h : n.store.disk.log.length < 2 ^ 31)
    (hk : k < n.store.disk.log.length) : n.raftGetLogTerm k = n.store.disk.log[k].term := by
  have hread : n.logRead k = some n.store.disk.log[k] := by
    rw [logRead, storage_read, Disk.read, u32_of_nat (by omega), if_neg (by omega)]
    exact List.getElem?_eq_getElem hk
  rw [raftGetLogTerm, if_neg (by omega), logLength_flaky h, if_neg (by omega), hread]

/-- Behind the end of the log, as the loop counts it, every entry is written. -/
theorem storeEntries_writes {len : ℕ} (hle : len ≤ k + j)
    (hfit : k + j + entries.length ≤ 2 ^ 32) :
    (storeEntries k j len entries n).store = writes (k + j) entries n.store := by
  induction entries generalizing n j len with
  | nil => rfl
  | cons entry entries ih =>
      rw [List.length_cons] at hfit
      have hidx : u32 ((k : ℤ) + j) = k + j := by exact_mod_cast u32_of_nat (n := k + j) (by omega)
      have hlen : u32 (len : ℤ) = len := u32_of_nat (by omega)
      rw [storeEntries]
      simp only [hidx, hlen]
      rw [if_neg (by omega), writes]
      have hrest := @ih (n.logWrite (i32 (k + j : ℕ)) entry) (j + 1) (len + 1) (by omega) (by omega)
      rw [logWrite_flaky] at hrest
      exact_mod_cast hrest

theorem remove_log {s : Flaky} (hlen : s.disk.log.length < 2 ^ 31) (hk : k < s.disk.log.length) :
    (Storage.removeLastN ((s.disk.log.length : ℤ) - k) s).2.disk.log =
      if s.fails 0 then s.disk.log else s.disk.log.take k := by
  have hn : u32 ((s.disk.log.length : ℤ) - k) = s.disk.log.length - k := by
    rw [← Nat.cast_sub hk.le]
    exact u32_of_nat (by omega)
  rw [storage_removeLastN, attempt_disk]
  split
  · rfl
  · rw [Disk.removeLastN, if_neg (by omega), hn]
    dsimp only
    rw [if_neg (by omega), hn]
    congr 1
    omega

/-- The whole loop: what it leaves alone, and when it has stored everything. -/
theorem storeEntries_holding (hlen : n.store.disk.log.length < 2 ^ 31)
    (hle : k + j ≤ n.store.disk.log.length) (hfit : k + j + entries.length ≤ 2 ^ 32) :
    (∀ x < k + j, (storeEntries k j n.store.disk.log.length entries n).store.disk.log[x]? =
      n.store.disk.log[x]?) ∧
    (Holding (storeEntries k j n.store.disk.log.length entries n).store.disk.log (k + j) entries ↔
      n.store.Sticks (k + j) entries) := by
  induction entries generalizing n j with
  | nil => exact ⟨fun _ _ => rfl, iff_of_true (fun i e he => by simp at he) trivial⟩
  | cons entry entries ih =>
      rw [List.length_cons] at hfit
      have hidx : u32 ((k : ℤ) + j) = k + j := by exact_mod_cast u32_of_nat (n := k + j) (by omega)
      have hint : i32 ((k + j : ℕ) : ℤ) = (k + j : ℕ) := i32_of_nat (by omega)
      have hend : u32 (n.store.disk.log.length : ℤ) = n.store.disk.log.length := u32_of_nat (by omega)
      by_cases hin : k + j < n.store.disk.log.length
      · have hx : n.store.disk.log[k + j]? = some n.store.disk.log[k + j] :=
          List.getElem?_eq_getElem hin
        have hterm : n.raftGetLogTerm (i32 (k + j : ℕ)) = n.store.disk.log[k + j].term := by
          rw [hint, raftGetLogTerm_flaky hlen hin]
        by_cases heq : n.store.disk.log[k + j].term = entry.term
        · -- the entry is skipped
          have hturn : storeEntries k j n.store.disk.log.length (entry :: entries) n =
              storeEntries k (j + 1) n.store.disk.log.length entries n := by
            rw [storeEntries]
            simp only [hidx, hend]
            rw [if_pos hin, if_neg (by rw [hterm]; exact not_not.mpr heq)]
          obtain ⟨hbefore, hiff⟩ := ih (n := n) (j := j + 1) hlen (by omega) (by omega)
          rw [hturn, Sticks, if_pos (by rw [hx, Option.map_some, heq]), holding_cons,
            hbefore (k + j) (by omega)]
          exact ⟨fun x hlt => hbefore x (by omega), and_congr_right' hiff⟩
        · -- the log is cut, or is not
          have hcut := remove_log (s := n.store) hlen hin
          have hfails : ∀ i, (Storage.removeLastN ((n.store.disk.log.length : ℤ) - (k + j : ℕ))
              n.store).2.fails i = n.store.fails (i + 1) := fun i => attempt_fails i
          have hturn : (storeEntries k j n.store.disk.log.length (entry :: entries) n).store =
              writes (k + j) (entry :: entries)
                (Storage.removeLastN ((n.store.disk.log.length : ℤ) - (k + j : ℕ)) n.store).2 := by
            rw [storeEntries]
            simp only [hidx, hend]
            rw [if_pos hin, if_pos (by rw [hterm]; exact heq), hint, writes, hint]
            have hrest := @storeEntries_writes ((n.logRemoveLastN
              ((n.store.disk.log.length : ℤ) - (k + j : ℕ))).logWrite (k + j : ℕ) entry)
              k (j + 1) entries (k + j + 1) (by omega) (by omega)
            rw [logWrite_flaky, logRemoveLastN_flaky] at hrest
            exact_mod_cast hrest
          rw [hturn]
          generalize (Storage.removeLastN ((n.store.disk.log.length : ℤ) - (k + j : ℕ)) n.store).2 = s
            at hcut hfails ⊢
          have hbefore : ∀ x < k + j, s.disk.log[x]? = n.store.disk.log[x]? := by
            intro x hlt
            rw [hcut]
            split
            · rfl
            · exact List.getElem?_take_of_lt hlt
          have hthere : ∀ i e, s.disk.log[k + j + i]? = some e ↔
              n.store.fails 0 = true ∧ n.store.disk.log[k + j + i]? = some e := by
            intro i e
            rw [hcut]
            split
            · simp [*]
            · rw [List.getElem?_take_eq_none (by omega)]
              simp [*]
          have hle' : k + j ≤ s.disk.log.length := by
            rw [hcut]
            split
            · exact hle
            · rw [List.length_take, min_eq_left hle]
          refine ⟨fun x hlt => ?_, ?_⟩
          · rw [writes_before (by rw [List.length_cons]; omega) hlt, hbefore x hlt]
          · rw [writes_holding (by rw [List.length_cons]; omega) hle', Sticks,
              if_neg (by rw [hx, Option.map_some]; exact fun h => heq (Option.some.inj h)), if_pos hin]
            refine forall_congr' fun i => forall_congr' fun e => imp_congr_right fun _ => ?_
            rw [hthere, Lands, Lands, hfails]
      · -- behind the end of the log
        have hturn := @storeEntries_writes n k j (entry :: entries) _ (Nat.le_of_not_lt hin)
          (by rw [List.length_cons]; omega)
        rw [hturn]
        have hnone : ∀ i, n.store.disk.log[k + j + i]? = none :=
          fun i => List.getElem?_eq_none (by omega)
        refine ⟨fun x hlt => writes_before (by rw [List.length_cons]; omega) hlt, ?_⟩
        rw [writes_holding (by rw [List.length_cons]; omega) hle, Sticks,
          if_neg (by rw [List.getElem?_eq_none (by omega)]; simp), if_neg hin]
        exact forall_congr' fun i => forall_congr' fun e => imp_congr_right fun _ => by simp [hnone]

theorem length_remove (m : ℤ) (s : Flaky) :
    (Storage.removeLastN m s).2.disk.log.length ≤ s.disk.log.length := by
  rw [storage_removeLastN, attempt_disk]
  split
  · exact le_rfl
  · unfold Disk.removeLastN
    split
    · exact le_rfl
    · exact List.length_take_le' _ _

/-- An index that is no `int` is never reached. -/
theorem length_storeEntries {newIdx i : ℕ} {logLen : ℤ} (hlen : n.store.disk.log.length ≤ 2 ^ 31) :
    (storeEntries newIdx i logLen entries n).store.disk.log.length ≤ 2 ^ 31 := by
  induction entries generalizing n i logLen with
  | nil => exact hlen
  | cons entry entries ih =>
      rw [storeEntries]
      dsimp only
      have hidx := u32_lt ((newIdx : ℤ) + i)
      generalize u32 ((newIdx : ℤ) + i) = pos at hidx ⊢
      split
      · split
        · refine ih ?_
          rw [logWrite_flaky, logRemoveLastN_flaky]
          exact length_write hidx (Nat.le_trans (length_remove _ _) hlen) entry
        · exact ih hlen
      · refine ih ?_
        rw [logWrite_flaky]
        exact length_write hidx hlen entry

end Node

/-! ### The response to a leader -/

/-- A packet that says that all entries of the request are stored is sent while they are. -/
def EntriesStored (req : AppendEntriesReq) (s : Flaky) (pkt : Pkt) : Prop :=
  ∀ res, pkt.rpc = .appendEntriesRes res → res.success = 1 →
    Holding s.disk.log (u32 (req.prevLogIdx + 1)) req.entries

namespace Node

variable {n : Node Flaky} {k j : ℕ} {entries : List LogEntry} {P : Flaky → Pkt → Prop} {s : Flaky}

open Flaky

theorem everySend_send_iff (h : Speaks P s n) (dst : ℕ) (rpc : Rpc) :
    EverySend P s (n.send dst rpc).script ↔ P n.store ⟨dst, n.config.id, rpc⟩ := by
  constructor
  · intro hall
    rw [← h.store]
    exact hall n.script _ [] rfl
  · exact fun hP => (h.send hP).sends

theorem advanceCommit_sends (h : Speaks P s n) (req : AppendEntriesReq)
    (hP : ∀ s dst id res, P s ⟨dst, id, .procRes res⟩) :
    Speaks P s (n.advanceCommit req) ∧ (n.advanceCommit req).store = n.store := by
  unfold advanceCommit
  split
  · dsimp only
    refine ⟨Speaks.applyToStateMachine (h.mem rfl rfl) fun dst res _ => hP _ _ _ _, ?_⟩
    rw [applyToStateMachine_store]
  · exact ⟨h, rfl⟩

theorem entriesStored_procRes (req : AppendEntriesReq) (s : Flaky) (dst id : ℕ) (res : ProcRes) :
    EntriesStored req s ⟨dst, id, .procRes res⟩ := nofun

theorem entriesStored_refused (req : AppendEntriesReq) (s : Flaky) (dst id term newMatch : ℕ) :
    EntriesStored req s ⟨dst, id, .appendEntriesRes ⟨term, newMatch, 0⟩⟩ := by
  intro res hres hs
  obtain rfl := Rpc.appendEntriesRes.inj hres
  exact absurd hs Nat.zero_ne_one

theorem entriesStored_accepted (req : AppendEntriesReq) (s : Flaky) (dst id term newMatch : ℕ) :
    EntriesStored req s ⟨dst, id, .appendEntriesRes ⟨term, newMatch, 1⟩⟩ ↔
      Holding s.disk.log (u32 (req.prevLogIdx + 1)) req.entries :=
  ⟨fun h => h _ rfl rfl, fun h _ _ _ => h⟩

/-- The loop of a request that has passed the check on the entry before the new ones. -/
theorem storeEntries_matched {req : AppendEntriesReq} (hlen : 0 ≤ n.logLength)
    (hsize : n.store.disk.log.length < 2 ^ 32) (hmatch : n.prevMatches n.logLength req)
    (hn : req.nEntries ≤ maxAppendEntriesN) :
    Holding (storeEntries (u32 (req.prevLogIdx + 1)) 0 n.logLength req.entries n).store.disk.log
      (u32 (req.prevLogIdx + 1)) req.entries ↔
      n.store.Sticks (u32 (req.prevLogIdx + 1)) req.entries := by
  have hsmall : n.store.disk.log.length < 2 ^ 31 := by
    rw [logLength, storage_length, Disk.length, i32_nonneg_iff hsize] at hlen
    exact hlen
  have hidx : i32 req.prevLogIdx < n.store.disk.log.length := by
    rw [prevMatches, logLength_flaky hsmall] at hmatch
    omega
  have hentries : req.entries.length ≤ 32 := hn
  rw [logLength_flaky hsmall]
  have hcases : u32 ((req.prevLogIdx : ℤ) + 1) ≤ n.store.disk.log.length ∨
      2 ^ 31 < u32 ((req.prevLogIdx : ℤ) + 1) := by
    unfold i32 at hidx
    unfold u32
    omega
  generalize u32 ((req.prevLogIdx : ℤ) + 1) = k at hcases ⊢
  rcases hcases with hle | hlarge
  · exact (storeEntries_holding (j := 0) hsmall hle (by omega)).2
  · -- an index that no write accepts
    cases hreq : req.entries with
    | nil => exact iff_of_true (fun i e he => by simp at he) trivial
    | cons entry entries =>
        refine iff_of_false (fun h => ?_) fun h => ?_
        · have hlast := @length_storeEntries n (entry :: entries) k 0 n.store.disk.log.length (by omega)
          obtain ⟨hlt, -⟩ := List.getElem?_eq_some_iff.mp (h 0 entry rfl)
          omega
        · rw [Sticks, List.getElem?_eq_none (by omega), if_neg (by simp), if_neg (by omega)] at h
          have := (h 0 entry rfl).2
          omega

theorem logLength_same {m : Node Flaky} (h : m.store.disk.log = n.store.disk.log) :
    m.logLength = n.logLength := by
  rw [logLength, logLength, storage_length, storage_length, Disk.length, Disk.length, h]

theorem raftGetLogTerm_same {m : Node Flaky} (h : m.store.disk.log = n.store.disk.log) (idx : ℤ) :
    m.raftGetLogTerm idx = n.raftGetLogTerm idx := by
  have hread : m.logRead idx = n.logRead idx := by
    rw [logRead, logRead, storage_read, storage_read, Disk.read, Disk.read, h]
  simp only [raftGetLogTerm, logLength_same h, hread]

theorem prevMatches_flaky {m : Node Flaky} (h : m.store.disk.log = n.store.disk.log) (logLen : ℤ)
    (req : AppendEntriesReq) : m.prevMatches logLen req ↔ n.prevMatches logLen req := by
  rw [prevMatches, prevMatches, raftGetLogTerm_same h]

theorem logIsUpToDate_same {m : Node Flaky} (h : m.store.disk.log = n.store.disk.log)
    (idx term : ℕ) : m.logIsUpToDate idx term = n.logIsUpToDate idx term := by
  simp only [logIsUpToDate, raftGetLogTerm_same h, logLength_same h]

/-- What is said once the entries have been dealt with. -/
theorem acknowledge_stored {m : Node Flaky} {req : AppendEntriesReq}
    (h : Speaks (EntriesStored req) s m) (curTerm newMatch : ℕ) :
    EverySend (EntriesStored req) s
        ((m.advanceCommit req).sendAppendEntriesResponse req.leaderId curTerm newMatch 1).script ↔
      Holding m.store.disk.log (u32 (req.prevLogIdx + 1)) req.entries := by
  obtain ⟨hsaid, hstore⟩ := advanceCommit_sends h req (entriesStored_procRes req)
  generalize m.advanceCommit req = m' at hsaid hstore ⊢
  rw [sendAppendEntriesResponse, everySend_send_iff hsaid, entriesStored_accepted, hstore]

/-- From the point where the request is known not to be stale. -/
theorem acceptAppendEntries_stored (env : Env) (curTerm : ℕ) {req : AppendEntriesReq}
    (h : Speaks (EntriesStored req) s n) (hsize : n.store.disk.log.length < 2 ^ 32)
    (hn : req.nEntries ≤ maxAppendEntriesN) :
    EverySend (EntriesStored req) s (n.acceptAppendEntries env curTerm req).script ↔
      (0 ≤ n.logLength → n.prevMatches n.logLength req →
        n.store.Sticks (u32 (req.prevLogIdx + 1)) req.entries) := by
  rw [acceptAppendEntries]
  generalize hm : setFaultDetectTimer env _ = m
  obtain ⟨hs, hmem⟩ : m.store = n.store ∧ Speaks (EntriesStored req) s m := by
    subst hm
    split
    · exact ⟨rfl, h.mem rfl rfl⟩
    · exact ⟨rfl, h.mem rfl rfl⟩
  clear hm
  have hright : (0 ≤ n.logLength → n.prevMatches n.logLength req →
      n.store.Sticks (u32 (req.prevLogIdx + 1)) req.entries) ↔
      (0 ≤ m.logLength → m.prevMatches m.logLength req →
        m.store.Sticks (u32 (req.prevLogIdx + 1)) req.entries) := by
    have hlog : m.store.disk.log = n.store.disk.log := by rw [hs]
    rw [logLength_same hlog, prevMatches_flaky hlog, hs]
  rw [hright]
  rw [← hs] at hsize
  clear hs h hright
  split
  · rename_i hneg
    exact iff_of_true hmem.sends fun hpos => absurd hneg (not_lt.mpr hpos)
  split
  · rename_i hno
    have hrefused := hmem.send
      (entriesStored_refused req m.store req.leaderId m.config.id curTerm 0)
    exact iff_of_true hrefused.sends fun _ hyes => absurd hyes hno
  · rename_i hpos hyes
    have hmatched := storeEntries_matched (not_lt.mp hpos) hsize (not_not.mp hyes) hn
    have hack := acknowledge_stored (storeEntries_speaks (u32 (req.prevLogIdx + 1)) 0 m.logLength
      req.entries hmem) curTerm (u32 (req.prevLogIdx + req.nEntries))
    rw [hmatched] at hack
    exact hack.trans ⟨fun h _ _ => h, fun h => h (not_lt.mp hpos) (not_not.mp hyes)⟩


/-! ### Becoming a follower -/

theorem becomeFollower_storage {σ : Type} [Storage σ] (env : Env) (n : Node σ) (term leaderId : ℕ) :
    (n.becomeFollower env term leaderId).store =
      (Storage.set .votedFor pfNoVote (Storage.set .currentTerm term n.store).2).2 := rfl

theorem attempt_faults {r : ℤ × Disk} : (s.attempt r).2.faults = s.faults.drop 1 := by
  unfold attempt
  split <;> rfl

theorem set_log (f : PersistentField) (v : ℕ) (s : Flaky) :
    (Storage.set f v s).2.disk.log = s.disk.log := by
  rw [storage_set, attempt_disk]
  split
  · rfl
  · cases f <;> rfl

theorem becomeFollower_log_faults (env : Env) (n : Node Flaky) (term leaderId : ℕ) :
    (n.becomeFollower env term leaderId).store.disk.log = n.store.disk.log ∧
      (n.becomeFollower env term leaderId).store.faults = n.store.faults.drop 2 := by
  rw [becomeFollower_storage, set_log, set_log]
  refine ⟨rfl, ?_⟩
  rw [storage_set, attempt_faults, storage_set, attempt_faults, List.drop_drop]

theorem sticks_congr {s' : Flaky} (hlog : s'.disk.log = s.disk.log) (hfaults : s'.faults = s.faults) :
    s'.Sticks k entries ↔ s.Sticks k entries := by
  have hfails : ∀ i, s'.fails i = s.fails i := fun i => by rw [fails, hfaults, fails]
  induction entries generalizing k with
  | nil => exact Iff.rfl
  | cons entry entries ih => simp only [Sticks, Lands, hlog, hfails, ih]

/-- The request makes the node a follower first. -/
def Follows {σ : Type} [Storage σ] (n : Node σ) (req : AppendEntriesReq) : Prop :=
  req.term > u32 (n.get .currentTerm) ∨ req.term = u32 (n.get .currentTerm) ∧ n.role = .candidate

instance {σ : Type} [Storage σ] (n : Node σ) (req : AppendEntriesReq) : Decidable (n.Follows req) :=
  inferInstanceAs (Decidable (_ ∨ _))

/-- The log and the failures that are left when the loop begins. -/
def entering (n : Node Flaky) (req : AppendEntriesReq) : Flaky :=
  { n.store with faults := if n.Follows req then n.store.faults.drop 2 else n.store.faults }

/-- The request is neither stale nor refused. -/
def Admits (n : Node Flaky) (req : AppendEntriesReq) : Prop :=
  0 ≤ n.get .currentTerm ∧ u32 (n.get .currentTerm) ≤ req.term ∧ 0 ≤ n.logLength ∧
    n.prevMatches n.logLength req

theorem handleAppendEntriesRequest_eq {σ : Type} [Storage σ] (env : Env) (n : Node σ)
    (req : AppendEntriesReq) : n.handleAppendEntriesRequest env req =
      if n.get .currentTerm < 0 then n
      else if req.term < u32 (n.get .currentTerm) then
        n.sendAppendEntriesResponse req.leaderId (u32 (n.get .currentTerm)) 0 0
      else
        (if n.Follows req then n.becomeFollower env req.term req.leaderId
        else { n with leaderId := req.leaderId }).acceptAppendEntries env
          (u32 (n.get .currentTerm)) req := rfl

theorem handleAppendEntriesRequest_stored (env : Env) {req : AppendEntriesReq} (hidle : n.script = [])
    (hsize : n.store.disk.log.length < 2 ^ 32) (hn : req.nEntries ≤ maxAppendEntriesN) :
    EverySend (EntriesStored req) n.store (n.handleAppendEntriesRequest env req).script ↔
      (n.Admits req → (n.entering req).Sticks (u32 (req.prevLogIdx + 1)) req.entries) := by
  have hsaid := speaks_of_idle (P := EntriesStored req) hidle
  rw [handleAppendEntriesRequest_eq]
  split
  · rename_i hneg
    exact iff_of_true hsaid.sends fun h => absurd hneg (not_lt.mpr h.1)
  split
  · rename_i hstale
    have hrefused := hsaid.send
      (entriesStored_refused req n.store req.leaderId n.config.id (u32 (n.get .currentTerm)) 0)
    exact iff_of_true hrefused.sends fun h => absurd hstale (not_lt.mpr h.2.1)
  · rename_i hneg hstale
    generalize hm : (if n.Follows req then n.becomeFollower env req.term req.leaderId
      else { n with leaderId := req.leaderId }) = m
    obtain ⟨hlog, hfaults, hmem⟩ : m.store.disk.log = n.store.disk.log ∧
        m.store.faults = (n.entering req).faults ∧ Speaks (EntriesStored req) n.store m := by
      rw [entering]
      by_cases hf : n.Follows req
      · rw [if_pos hf] at hm
        rw [if_pos hf, ← hm]
        obtain ⟨hlog, hfaults⟩ := becomeFollower_log_faults env n req.term req.leaderId
        exact ⟨hlog, hfaults, hsaid.becomeFollower env _ _⟩
      · rw [if_neg hf] at hm
        rw [if_neg hf, ← hm]
        exact ⟨rfl, rfl, hsaid.mem rfl rfl⟩
    clear hm
    have hstored := acceptAppendEntries_stored env (u32 (n.get .currentTerm)) hmem (by rwa [hlog]) hn
    have hsticks : m.store.Sticks (u32 (req.prevLogIdx + 1)) req.entries ↔
        (n.entering req).Sticks (u32 (req.prevLogIdx + 1)) req.entries :=
      sticks_congr (by rw [hlog, entering]) hfaults
    have hlen := logLength_same hlog
    have hmatches : m.prevMatches m.logLength req ↔ n.prevMatches n.logLength req := by
      rw [hlen]
      exact prevMatches_flaky hlog _ _
    rw [hlen] at hstored
    constructor
    · intro hall hadm
      obtain ⟨-, -, hpos, hyes⟩ := hadm
      exact hsticks.mp (hstored.mp hall hpos (hlen ▸ hmatches.mpr hyes))
    · intro h
      refine hstored.mpr fun hpos hyes => hsticks.mpr (h ?_)
      exact ⟨not_lt.mp hneg, not_lt.mp hstale, hpos, hmatches.mp (hlen.symm ▸ hyes)⟩

end Node

/-! ### The response to a candidate -/

/-- A packet that gives the vote is sent while storage has it, in the term of the packet. -/
def VoteStored (req : RequestVoteReq) (s : Flaky) (pkt : Pkt) : Prop :=
  ∀ res, pkt.rpc = .requestVoteRes res → res.voteGranted = 1 →
    s.disk.votedFor = req.candidateId ∧ s.disk.currentTerm = res.term

namespace Node

variable {n : Node Flaky} {s : Flaky}

open Flaky

theorem voteStored_refused (req : RequestVoteReq) (s : Flaky) (dst id term : ℕ) :
    VoteStored req s ⟨dst, id, .requestVoteRes ⟨term, 0⟩⟩ := by
  intro res hres hgranted
  obtain rfl := Rpc.requestVoteRes.inj hres
  exact absurd hgranted Nat.zero_ne_one

theorem voteStored_given (req : RequestVoteReq) (s : Flaky) (dst id term : ℕ) :
    VoteStored req s ⟨dst, id, .requestVoteRes ⟨term, 1⟩⟩ ↔
      s.disk.votedFor = req.candidateId ∧ s.disk.currentTerm = term :=
  ⟨fun h => h _ rfl rfl, fun h res hres _ => by obtain rfl := Rpc.requestVoteRes.inj hres; exact h⟩

/-- The stored vote allows to vote for the candidate. -/
def Allows (vote : ℕ) (req : RequestVoteReq) : Prop :=
  0 ≤ i32 vote ∧ (i32 vote ≠ pfNoVote → u32 (i32 vote) = req.candidateId)

instance (vote : ℕ) (req : RequestVoteReq) : Decidable (Allows vote req) :=
  inferInstanceAs (Decidable (_ ∧ _))

theorem decideVote_eq {σ : Type} [Storage σ] (env : Env) (n : Node σ) (curTerm : ℕ)
    (req : RequestVoteReq) : n.decideVote env curTerm req =
      if n.get .votedFor < 0 then n
      else if n.get .votedFor ≠ pfNoVote ∧ u32 (n.get .votedFor) ≠ req.candidateId ∨
          ¬n.logIsUpToDate req.lastLogIdx req.lastLogTerm then
        n.send req.candidateId (.requestVoteRes ⟨curTerm, 0⟩)
      else
        ((n.set .votedFor req.candidateId (some (.vote curTerm req.candidateId))).setElectionTimer
          env).send req.candidateId (.requestVoteRes ⟨curTerm, 1⟩) := rfl

theorem set_votedFor {v : ℕ} (hv : v < 2 ^ 32) (s : Flaky) :
    (Storage.set .votedFor v s).2.disk =
      { s.disk with votedFor := if s.fails 0 then s.disk.votedFor else v } := by
  rw [storage_set, attempt_disk]
  split
  · rfl
  · rw [Disk.set, u32_of_nat hv]

theorem set_currentTerm {v : ℕ} (hv : v < 2 ^ 32) (s : Flaky) :
    (Storage.set .currentTerm v s).2.disk =
      { s.disk with currentTerm := if s.fails 0 then s.disk.currentTerm else v } := by
  rw [storage_set, attempt_disk]
  split
  · rfl
  · rw [Disk.set, u32_of_nat hv]

theorem decideVote_stored (env : Env) (curTerm : ℕ) {req : RequestVoteReq}
    (h : Speaks (VoteStored req) s n) (hid : req.candidateId < 2 ^ 32) :
    EverySend (VoteStored req) s (n.decideVote env curTerm req).script ↔
      (Allows n.store.disk.votedFor req → n.logIsUpToDate req.lastLogIdx req.lastLogTerm = true →
        (n.store.fails 0 = false ∨ n.store.disk.votedFor = req.candidateId) ∧
          n.store.disk.currentTerm = curTerm) := by
  have hvote : n.get .votedFor = i32 n.store.disk.votedFor := by
    rw [get_eq, storage_get, Disk.get]
  rw [decideVote_eq, hvote]
  split
  · rename_i hneg
    exact iff_of_true h.sends fun hallows => absurd hneg (not_lt.mpr hallows.1)
  split
  · rename_i hno
    have hrefused := h.send
      (voteStored_refused req n.store req.candidateId n.config.id curTerm)
    refine iff_of_true hrefused.sends fun hallows hup => ?_
    rcases hno with ⟨hvoted, hother⟩ | hbehind
    · exact absurd (hallows.2 hvoted) hother
    · exact absurd hup hbehind
  · rename_i hpos hyes
    push Not at hyes
    have hset := (h.set .votedFor req.candidateId
      (some (.vote curTerm req.candidateId))).setElectionTimer env
    rw [everySend_send_iff hset, voteStored_given, setElectionTimer_store, set_store,
      set_votedFor hid]
    constructor
    · rintro ⟨hstored, hterm⟩ - -
      refine ⟨?_, hterm⟩
      cases hf : n.store.fails 0 with
      | false => exact .inl rfl
      | true =>
          rw [hf] at hstored
          exact .inr hstored
    · intro hall
      obtain ⟨hstored, hterm⟩ := hall ⟨not_lt.mp hpos, hyes.1⟩ hyes.2
      refine ⟨?_, hterm⟩
      rcases hstored with hf | hthere
      · rw [hf]
        rfl
      · dsimp only
        rw [hthere, ite_self]

theorem handleRequestVoteRequest_eq {σ : Type} [Storage σ] (env : Env) (n : Node σ) (srcId : ℕ)
    (req : RequestVoteReq) : n.handleRequestVoteRequest env srcId req =
      if n.get .currentTerm < 0 then n
      else if req.term < u32 (n.get .currentTerm) then
        n.send req.candidateId (.requestVoteRes ⟨u32 (n.get .currentTerm), 0⟩)
      else if req.term > u32 (n.get .currentTerm) then
        (n.becomeFollower env req.term srcId).decideVote env req.term req
      else n.decideVote env (u32 (n.get .currentTerm)) req := rfl

theorem becomeFollower_flaky (env : Env) (n : Node Flaky) {term : ℕ} (h : term < 2 ^ 32)
    (leaderId : ℕ) : (n.becomeFollower env term leaderId).store.disk = { n.store.disk with
      currentTerm := if n.store.fails 0 then n.store.disk.currentTerm else term
      votedFor := if n.store.fails 1 then n.store.disk.votedFor else pfNoVote } ∧
    (n.becomeFollower env term leaderId).store.fails 0 = n.store.fails 2 := by
  rw [becomeFollower_storage, set_votedFor (by decide), set_currentTerm h]
  simp only [storage_set, attempt_fails, and_self]

/-- The vote that is stored when the request is decided on. -/
def standingVote (n : Node Flaky) (req : RequestVoteReq) : ℕ :=
  if req.term > u32 (n.get .currentTerm) ∧ n.store.fails 1 = false then pfNoVote
  else n.store.disk.votedFor

/-- The vote is given. -/
def Gives (n : Node Flaky) (req : RequestVoteReq) : Prop :=
  0 ≤ n.get .currentTerm ∧ u32 (n.get .currentTerm) ≤ req.term ∧ Allows (n.standingVote req) req ∧
    n.logIsUpToDate req.lastLogIdx req.lastLogTerm = true

/-- What it takes for the vote to be stored: a new term is, and so is the vote, or it was
there already. -/
def VoteSticks (n : Node Flaky) (req : RequestVoteReq) : Prop :=
  (req.term > u32 (n.get .currentTerm) → n.store.fails 0 = false) ∧
    (n.store.fails (if req.term > u32 (n.get .currentTerm) then 2 else 0) = false ∨
      n.standingVote req = req.candidateId)

instance (n : Node Flaky) (req : RequestVoteReq) : Decidable (n.VoteSticks req) :=
  inferInstanceAs (Decidable (_ ∧ _))

theorem handleRequestVoteRequest_stored (env : Env) (srcId : ℕ) {req : RequestVoteReq}
    (hidle : n.script = []) (hterm : n.store.disk.currentTerm < 2 ^ 32) (hreq : req.term < 2 ^ 32)
    (hid : req.candidateId < 2 ^ 32) :
    EverySend (VoteStored req) n.store (n.handleRequestVoteRequest env srcId req).script ↔
      (n.Gives req → n.VoteSticks req) := by
  have hsaid := speaks_of_idle (P := VoteStored req) hidle
  have hcur : u32 (n.get .currentTerm) = n.store.disk.currentTerm := by
    rw [get_eq, storage_get, Disk.get, u32_i32, u32_of_nat hterm]
  rw [handleRequestVoteRequest_eq, Gives, VoteSticks, standingVote, hcur]
  split
  · rename_i hneg
    exact iff_of_true hsaid.sends fun h => absurd hneg (not_lt.mpr h.1)
  split
  · rename_i hstale
    have hrefused := hsaid.send
      (voteStored_refused req n.store req.candidateId n.config.id n.store.disk.currentTerm)
    exact iff_of_true hrefused.sends fun h => absurd hstale (not_lt.mpr h.2.1)
  split
  · rename_i hneg hstale hlater
    obtain ⟨hdisk, hfails⟩ := becomeFollower_flaky env n hreq srcId
    have hm := hsaid.becomeFollower env req.term srcId
    generalize n.becomeFollower env req.term srcId = m at hdisk hfails hm ⊢
    have hlog : m.store.disk.log = n.store.disk.log := by rw [hdisk]
    have hvote : m.store.disk.votedFor = if req.term > n.store.disk.currentTerm ∧
        n.store.fails 1 = false then pfNoVote else n.store.disk.votedFor := by
      rw [hdisk]
      cases hf : n.store.fails 1 with
      | false => simp [hlater]
      | true => simp
    have hnew : m.store.disk.currentTerm = req.term ↔ n.store.fails 0 = false := by
      rw [hdisk]
      cases hf : n.store.fails 0 with
      | false => simp
      | true =>
          simp only [if_true, Bool.true_eq_false, iff_false]
          omega
    have hstored := decideVote_stored env req.term hm hid
    rw [← hvote]
    rw [hnew, hfails, logIsUpToDate_same hlog] at hstored
    constructor
    · intro hall hgives
      obtain ⟨-, -, hallows, hup⟩ := hgives
      obtain ⟨hgot, hnew⟩ := hstored.mp hall hallows hup
      exact ⟨fun _ => hnew, hgot⟩
    · intro h
      refine hstored.mpr fun hallows hup => ?_
      obtain ⟨hnew, hgot⟩ := h ⟨not_lt.mp hneg, not_lt.mp hstale, hallows, hup⟩
      exact ⟨hgot, hnew hlater⟩
  · rename_i hneg hstale hsame
    have hstored := decideVote_stored env n.store.disk.currentTerm hsaid hid
    rw [if_neg (fun h => hsame h.1)]
    constructor
    · intro hall hgives
      obtain ⟨-, -, hallows, hup⟩ := hgives
      exact ⟨fun hlater => absurd hlater hsame, (hstored.mp hall hallows hup).1⟩
    · intro h
      refine hstored.mpr fun hallows hup => ?_
      exact ⟨(h ⟨not_lt.mp hneg, not_lt.mp hstale, hallows, hup⟩).2, rfl⟩

/-- What a node says it has stored is stored just if the calls that matter do not fail. -/
theorem persisted_before_reply (env : Env) (hidle : n.script = [])
    (hterm : n.store.disk.currentTerm < 2 ^ 32) (hsize : n.store.disk.log.length < 2 ^ 32) :
    (∀ req : AppendEntriesReq, req.nEntries ≤ maxAppendEntriesN →
      (EverySend (EntriesStored req) n.store (n.handleAppendEntriesRequest env req).script ↔
        (n.Admits req → (n.entering req).Sticks (u32 (req.prevLogIdx + 1)) req.entries))) ∧
    ∀ (req : RequestVoteReq) (srcId : ℕ), req.term < 2 ^ 32 → req.candidateId < 2 ^ 32 →
      (EverySend (VoteStored req) n.store (n.handleRequestVoteRequest env srcId req).script ↔
        (n.Gives req → n.VoteSticks req)) :=
  ⟨fun _ hn => handleAppendEntriesRequest_stored env hidle hsize hn,
    fun _ srcId hreq hid => handleRequestVoteRequest_stored env srcId hidle hterm hreq hid⟩

/-- The second of the two calls of `become_follower` fails, and the vote is stored. -/
theorem persisted_before_vote :
    let n : Node Flaky := raftCreate (.plain 3 1) ⟨.init, [false, true]⟩
    EverySend (VoteStored ⟨1, 0, 4294967295, 0⟩) n.store
      (n.handleRequestVoteRequest ⟨0, 0⟩ 0 ⟨1, 0, 4294967295, 0⟩).script := by
  intro n
  have hall := (@persisted_before_reply n ⟨0, 0⟩ rfl (by decide) (by decide)).2
  exact (hall ⟨1, 0, 4294967295, 0⟩ 0 (by decide) (by decide)).mpr fun _ => by decide +kernel

/-- A node that has just started, whose third call to storage fails. -/
def unreliable : Node Flaky := raftCreate (.plain 3 1) ⟨.init, [false, false, true]⟩

/-- A leader's first entry is acknowledged although the write of it has failed, and a vote
is given although it was not stored. -/
theorem reply_without_persisting :
    ¬EverySend (EntriesStored ⟨1, 0, 4294967295, 0, -1, [⟨1, 9, 1, 7⟩]⟩) unreliable.store
      (unreliable.handleAppendEntriesRequest ⟨0, 0⟩
        ⟨1, 0, 4294967295, 0, -1, [⟨1, 9, 1, 7⟩]⟩).script ∧
    ¬EverySend (VoteStored ⟨1, 0, 4294967295, 0⟩) unreliable.store
      (unreliable.handleRequestVoteRequest ⟨0, 0⟩ 0 ⟨1, 0, 4294967295, 0⟩).script := by
  constructor
  · intro hall
    have hscript : (unreliable.handleAppendEntriesRequest ⟨0, 0⟩
        ⟨1, 0, 4294967295, 0, -1, [⟨1, 9, 1, 7⟩]⟩).script =
        (unreliable.handleAppendEntriesRequest ⟨0, 0⟩
          ⟨1, 0, 4294967295, 0, -1, [⟨1, 9, 1, 7⟩]⟩).script.dropLast ++
        .send ⟨0, 1, .appendEntriesRes ⟨0, 0, 1⟩⟩ :: [] := by decide +kernel
    have hheld := hall _ _ _ hscript _ rfl rfl 0 ⟨1, 9, 1, 7⟩ rfl
    revert hheld
    decide +kernel
  · intro hall
    have hscript : (unreliable.handleRequestVoteRequest ⟨0, 0⟩ 0 ⟨1, 0, 4294967295, 0⟩).script =
        (unreliable.handleRequestVoteRequest ⟨0, 0⟩ 0 ⟨1, 0, 4294967295, 0⟩).script.dropLast ++
        .send ⟨0, 1, .requestVoteRes ⟨1, 1⟩⟩ :: [] := by decide +kernel
    have hheld := hall _ _ _ hscript _ rfl rfl
    revert hheld
    decide +kernel

end Node

end GeoRaft
