import GeoRaft.Persist.Log

/-!
The two files are a list.

At every moment the files hold some list: the packed entries, whatever stands
behind them, and their number. An operation takes effect in a single system call,
the one that writes the length or, below the end of the log, the entry. A process
that is stopped leaves the list from before that call or the one from after it.
-/

namespace GeoRaft

open Word Octets Files

/-! ### What the operations mean -/

inductive LogOp
  | read (idx n : ℤ)
  | write (idx : ℤ) (entry : LogEntry)
  | removeLastN (n : ℤ)
  | length
  | init
  deriving DecidableEq, Repr

namespace LogOp

/-- The arguments are of their types, `int` and `log_entry_t`. -/
def Fits : LogOp → Prop
  | read idx _ => idx < 2 ^ 31
  | write idx entry => idx < 2 ^ 31 ∧ entry.Fits
  | removeLastN n => n < 2 ^ 31
  | length | init => True

/-- The operation on a plain list. -/
def onList : LogOp → List LogEntry → LogResult × List LogEntry
  | read idx n, l =>
    if idx < 0 then (⟨Disk.eobnd, none⟩, l)
    else
      match l[idx.toNat]? with
      | some entry => (⟨n, some entry⟩, l)
      | none => (⟨Disk.eobnd, none⟩, l)
  | write idx entry, l =>
    if idx < 0 ∨ idx > l.length then (⟨Disk.eobnd, none⟩, l)
    else if idx = l.length then (⟨0, none⟩, l ++ [entry])
    else (⟨0, none⟩, l.set idx.toNat entry)
  | removeLastN n, l =>
    if n ≤ 0 then (⟨0, none⟩, l)
    else (⟨min n l.length, none⟩, l.take (l.length - n.toNat))
  | length, l => (⟨l.length, none⟩, l)
  | init, l => (⟨0, none⟩, l)

/-- The operation on the files. A process that was started on them is only needed
for the operations other than `log_init`. -/
def onFiles (op : LogOp) (files : LogFile → List UInt8) (s : Option FileLog) :
    Option (LogResult × FileLog) :=
  match op, s with
  | init, _ => some (⟨0, none⟩, FileLog.logInit files)
  | read idx n, some s => some (s.fLogRead idx n)
  | write idx entry, some s => some (s.fLogWrite idx entry)
  | removeLastN n, some s => some (s.fLogRemoveLastN n)
  | length, some s => some (s.fLogLength, s)
  | _, none => none

end LogOp

namespace FileLog

/-! ### The files that hold a list -/

def packed (l : List LogEntry) : List UInt8 := bytesOf (l.flatMap LogEntry.fields)

theorem length_packed (l : List LogEntry) : (packed l).length = l.length * logEntryPackedSize := by
  rw [packed, length_entries, logEntryPackedSize, mul_comm]

theorem packed_append (l l' : List LogEntry) : packed (l ++ l') = packed l ++ packed l' := by
  rw [packed, List.flatMap_append, bytesOf_append, packed, packed]

theorem packed_cons (entry : LogEntry) (l : List LogEntry) :
    packed (entry :: l) = entryBytes entry ++ packed l := by
  rw [entryBytes_eq, packed, List.flatMap_cons, bytesOf_append, packed]

/-- The entry at `idx` stands behind those in front of it. -/
theorem packed_split {l : List LogEntry} {idx : ℕ} (h : idx < l.length) :
    packed l = packed (l.take idx) ++ (entryBytes l[idx] ++ packed (l.drop (idx + 1))) := by
  rw [← packed_cons, ← packed_append, ← List.drop_eq_getElem_cons h, List.take_append_drop]

/-- These files hold the list `l`. -/
structure Holds (files : LogFile → List UInt8) (l : List LogEntry) : Prop where
  log : ∃ stale, files .log = packed l ++ stale
  metadata : files .metadata = hostWord l.length ∨ files .metadata = [] ∧ l = []
  fits : ∀ entry ∈ l, entry.Fits
  small : l.length ≤ 2 ^ 31

/-- So does this process. -/
structure Represents (s : FileLog) (l : List LogEntry) : Prop where
  holds : Holds s.files l
  length : s.mem.length = l.length
  reliable : s.faults = []

/-! ### Files after a write -/

variable {files : LogFile → List UInt8} {l : List LogEntry}

theorem Holds.append (h : Holds files l) {entry : LogEntry} (hfits : entry.Fits)
    (hlen : l.length < 2 ^ 31) :
    Holds (Function.update files .log
        (writeAt (l.length * logEntryPackedSize) (entryBytes entry) (files .log))) l ∧
      Holds (Function.update (Function.update files .log
        (writeAt (l.length * logEntryPackedSize) (entryBytes entry) (files .log))) .metadata
          (hostWord (l.length + 1))) (l ++ [entry]) := by
  obtain ⟨stale, hlog⟩ := h.log
  have hwrite : writeAt (l.length * logEntryPackedSize) (entryBytes entry) (files .log) =
      packed l ++ (entryBytes entry ++ stale.drop (entryBytes entry).length) := by
    rw [hlog, ← length_packed, writeAt_append, List.append_assoc]
  constructor
  · refine ⟨⟨entryBytes entry ++ stale.drop (entryBytes entry).length, ?_⟩, ?_, h.fits, h.small⟩
    · rw [Function.update_self, hwrite]
    · rw [Function.update_of_ne (by decide)]
      exact h.metadata
  · refine ⟨⟨stale.drop (entryBytes entry).length, ?_⟩, .inl ?_, ?_, ?_⟩
    · rw [Function.update_of_ne (by decide), Function.update_self, hwrite, packed_append, packed_cons]
      simp [packed, bytesOf]
    · rw [Function.update_self, List.length_append, List.length_singleton]
    · intro e he
      rcases List.mem_append.mp he with he | he
      · exact h.fits e he
      · rw [List.mem_singleton.mp he]
        exact hfits
    · rw [List.length_append, List.length_singleton]
      omega

theorem Holds.set (h : Holds files l) {entry : LogEntry} (hfits : entry.Fits) {idx : ℕ}
    (hidx : idx < l.length) :
    Holds (Function.update files .log
      (writeAt (idx * logEntryPackedSize) (entryBytes entry) (files .log))) (l.set idx entry) := by
  obtain ⟨stale, hlog⟩ := h.log
  have hfront : (packed (l.take idx)).length = idx * logEntryPackedSize := by
    rw [length_packed, List.length_take, min_eq_left hidx.le]
  have hset : l.set idx entry = l.take idx ++ entry :: l.drop (idx + 1) :=
    List.set_eq_take_append_cons_drop .. |>.trans (if_pos hidx)
  refine ⟨⟨stale, ?_⟩, ?_, ?_, ?_⟩
  · rw [Function.update_self, hlog, packed_split hidx, ← hfront, List.append_assoc, writeAt_append,
      hset, packed_append, packed_cons, List.append_assoc (entryBytes _), List.drop_append,
      List.drop_of_length_le (by rw [length_entryBytes, length_entryBytes])]
    simp [length_entryBytes]
  · rw [Function.update_of_ne (by decide), List.length_set]
    refine h.metadata.imp_right fun ⟨hm, hl⟩ => ⟨hm, ?_⟩
    rw [hl, List.set_nil]
  · intro e he
    rcases List.mem_or_eq_of_mem_set he with he | rfl
    · exact h.fits e he
    · exact hfits
  · rw [List.length_set]
    exact h.small

theorem Holds.take (h : Holds files l) (k : ℕ) :
    Holds (Function.update files .metadata (hostWord (l.take k).length)) (l.take k) := by
  obtain ⟨stale, hlog⟩ := h.log
  refine ⟨⟨packed (l.drop k) ++ stale, ?_⟩, .inl (Function.update_self ..), ?_, ?_⟩
  · rw [Function.update_of_ne (by decide), hlog, ← List.append_assoc, ← packed_append,
      List.take_append_drop]
  · exact fun e he => h.fits e (List.mem_of_mem_take he)
  · rw [List.length_take]
    exact (min_le_right _ _).trans h.small

theorem Holds.truncate (h : Holds files l) :
    Holds (Function.update files .log
      (truncate (l.length * logEntryPackedSize) (files .log))) l := by
  obtain ⟨stale, hlog⟩ := h.log
  refine ⟨⟨[], ?_⟩, ?_, h.fits, h.small⟩
  · rw [Function.update_self, hlog, ← length_packed, truncate_append, List.append_nil]
  · rw [Function.update_of_ne (by decide)]
    exact h.metadata

/-! ### Operations of a process -/

variable {s s' s'' : FileLog}

/-- Some calls later: what they left behind, and where the process is. -/
structure After (s s' : FileLog) (files : LogFile → List UInt8) (mem : LogContext)
    (calls : List (LogFile → List UInt8)) : Prop where
  files : s'.files = files
  mem : s'.mem = mem
  faults : s'.faults = s.faults
  past : s'.past = s.past ++ calls

theorem After.trans {files files' mem mem' calls calls'} (h : After s s' files mem calls)
    (h' : After s' s'' files' mem' calls') : After s s'' files' mem' (calls ++ calls') where
  files := h'.files
  mem := h'.mem
  faults := h'.faults.trans h.faults
  past := by rw [h'.past, h.past, List.append_assoc]

theorem after_lseek (h : s.faults = []) (fd : LogFile) (off : ℕ) :
    (s.lseek fd off).1 ≠ -1 ∧ (s.lseek fd off).2.pos fd = off ∧
      After s (s.lseek fd off).2 s.files s.mem [s.files] := by
  rw [Sys.lseek_done (Sys.fails_of_reliable h 0)]
  refine ⟨?_, Function.update_self .., rfl, rfl, ?_, rfl⟩
  · show (off : ℤ) ≠ -1
    omega
  · show s.faults.drop 1 = s.faults
    rw [h, List.drop_nil]

theorem after_write (h : s.faults = []) (fd : LogFile) (data : List UInt8) :
    (s.write fd data).1 = data.length ∧
      After s (s.write fd data).2 (Function.update s.files fd (writeAt (s.pos fd) data (s.files fd)))
        s.mem [Function.update s.files fd (writeAt (s.pos fd) data (s.files fd))] := by
  rw [Sys.write_done (Sys.fails_of_reliable h 0)]
  refine ⟨rfl, rfl, rfl, ?_, rfl⟩
  show s.faults.drop 1 = s.faults
  rw [h, List.drop_nil]

theorem after_fsync (s : FileLog) : After s s.fsync s.files s.mem [s.files] := ⟨rfl, rfl, rfl, rfl⟩

theorem after_ftruncate (s : FileLog) (fd : LogFile) (n : ℕ) :
    After s (s.ftruncate fd n) (Function.update s.files fd (truncate n (s.files fd))) s.mem
      [Function.update s.files fd (truncate n (s.files fd))] :=
  ⟨rfl, rfl, rfl, rfl⟩

/-- The second file is never longer than the word that is written over it. -/
theorem Holds.writeAt_metadata (h : Holds files l) (v : ℕ) :
    writeAt 0 (hostWord v) (files .metadata) = hostWord v := by
  have hshort : (files .metadata).drop (hostWord v).length = [] := by
    rw [length_hostWord]
    rcases h.metadata with hm | ⟨hm, -⟩
    · rw [hm, List.drop_of_length_le (length_hostWord _).le]
    · rw [hm, List.drop_nil]
  have hwrite := writeAt_append [] (hostWord v) (files .metadata)
  rw [List.length_nil, List.nil_append, List.nil_append, hshort, List.append_nil] at hwrite
  exact hwrite

theorem after_writeLength (hr : s.faults = []) (h : Holds s.files l) :
    (writeLength s).1 = true ∧
      After s (writeLength s).2
        (Function.update s.files .metadata (hostWord s.mem.length)) s.mem
        [s.files, Function.update s.files .metadata (hostWord s.mem.length),
          Function.update s.files .metadata (hostWord s.mem.length)] := by
  obtain ⟨hok, hpos, hseek⟩ := after_lseek hr .metadata 0
  rw [writeLength]
  dsimp only
  rw [if_neg hok]
  generalize (s.lseek .metadata 0).2 = s₁ at hpos hseek ⊢
  obtain ⟨hsent, hwrite⟩ := after_write (hseek.faults.trans hr) .metadata (hostWord s.mem.length)
  rw [if_neg (by rw [hsent, length_hostWord]; decide)]
  generalize (s₁.write .metadata (hostWord s.mem.length)).2 = s₂ at hwrite ⊢
  rw [hpos, hseek.files, hseek.mem, h.writeAt_metadata] at hwrite
  have hsync := after_fsync s₂
  rw [hwrite.files, hwrite.mem] at hsync
  exact ⟨rfl, hseek.trans (hwrite.trans hsync)⟩

theorem after_read (h : s.faults = []) (fd : LogFile) (n : ℕ) :
    (s.read fd n).1 = readAt (s.pos fd) n (s.files fd) ∧
      After s (s.read fd n).2 s.files s.mem [s.files] := by
  rw [Sys.read_done (Sys.fails_of_reliable h 0)]
  refine ⟨rfl, rfl, rfl, ?_, rfl⟩
  show s.faults.drop 1 = s.faults
  rw [h, List.drop_nil]

/-- The process holds `l'` in place of `l`, and whenever it was stopped in between
the files would have held one of the two. -/
structure Turns (s s' : FileLog) (l l' : List LogEntry) : Prop where
  represents : Represents s' l'
  past : ∃ calls, s'.past = s.past ++ calls ∧ ∀ files ∈ calls, Holds files l ∨ Holds files l'

theorem Turns.refl (h : Represents s l) : Turns s s l l :=
  ⟨h, [], (List.append_nil _).symm, by simp⟩

/-- Calls that write nothing. -/
theorem After.turns {n : ℕ} (ha : After s s' s.files s.mem (List.replicate n s.files))
    (h : Represents s l) : Turns s s' l l where
  represents := ⟨by rw [ha.files]; exact h.holds, by rw [ha.mem, h.length], ha.faults.trans h.reliable⟩
  past := ⟨_, ha.past, fun files hf => .inl (by rw [List.eq_of_mem_replicate hf]; exact h.holds)⟩

theorem Represents.out_of_range (h : Represents s l) {idx : ℤ} (hidx : idx < 2 ^ 31) :
    (idx < 0 ∨ u32 idx ≥ s.mem.length) ↔ idx < 0 ∨ l.length ≤ idx := by
  refine or_congr_right' fun hneg => ?_
  obtain ⟨i, rfl⟩ := Int.eq_ofNat_of_zero_le (not_lt.mp hneg)
  rw [u32_of_nat (by omega), h.length]
  omega

theorem logEntryUnpack_readAt (h : Holds files l) {idx : ℕ} (hidx : idx < l.length) :
    (readAt (idx * logEntryPackedSize) logEntryPackedSize (files .log)) = entryBytes l[idx] := by
  obtain ⟨stale, hlog⟩ := h.log
  have hfront : (packed (l.take idx)).length = idx * logEntryPackedSize := by
    rw [length_packed, List.length_take, min_eq_left hidx.le]
  rw [hlog, packed_split hidx, ← hfront, List.append_assoc, List.append_assoc,
    ← length_entryBytes l[idx], readAt_append]

theorem logEntryUnpack_entryBytes {entry : LogEntry} (h : entry.Fits) :
    logEntryUnpack 0 (entryBytes entry) = entry := by
  have hread := logEntryUnpack_append [] [] h
  rw [List.length_nil, List.nil_append, List.append_nil, ← entryBytes_eq] at hread
  exact hread

theorem fLogRead_turns (h : Represents s l) {idx : ℤ} (hidx : idx < 2 ^ 31) (n : ℤ) :
    (s.fLogRead idx n).1 = ((LogOp.read idx n).onList l).1 ∧
      Turns s (s.fLogRead idx n).2 l ((LogOp.read idx n).onList l).2 := by
  rw [fLogRead, LogOp.onList]
  by_cases hout : idx < 0 ∨ l.length ≤ idx
  · rw [if_pos ((h.out_of_range hidx).mpr hout)]
    split
    · exact ⟨rfl, .refl h⟩
    · rw [List.getElem?_eq_none (by omega)]
      exact ⟨rfl, .refl h⟩
  · rw [if_neg (mt (h.out_of_range hidx).mp hout)]
    obtain ⟨i, rfl⟩ := Int.eq_ofNat_of_zero_le (a := idx) (by omega)
    have hi : i < l.length := by omega
    obtain ⟨hok, hpos, hseek⟩ := after_lseek h.reliable .log (i * logEntryPackedSize)
    have hnonneg : ¬(i : ℤ) < 0 := by omega
    rw [if_neg hnonneg, Int.toNat_natCast, List.getElem?_eq_getElem hi]
    dsimp only
    rw [if_neg hok]
    generalize (s.lseek .log (i * logEntryPackedSize)).2 = s₁ at hpos hseek ⊢
    obtain ⟨hbuf, hread⟩ := after_read (hseek.faults.trans h.reliable) .log logEntryPackedSize
    rw [hpos, hseek.files, logEntryUnpack_readAt h.holds hi] at hbuf
    rw [hbuf, if_neg (by rw [length_entryBytes]; exact not_not.mpr rfl),
      logEntryUnpack_entryBytes (h.holds.fits _ (List.getElem_mem hi))]
    rw [hseek.files, hseek.mem] at hread
    exact ⟨rfl, @After.turns _ _ _ 2 (hseek.trans hread) h⟩

theorem fLogWrite_turns (h : Represents s l) {idx : ℤ} (hidx : idx < 2 ^ 31) {entry : LogEntry}
    (hfits : entry.Fits) :
    (s.fLogWrite idx entry).1 = ((LogOp.write idx entry).onList l).1 ∧
      Turns s (s.fLogWrite idx entry).2 l ((LogOp.write idx entry).onList l).2 := by
  rw [fLogWrite, LogOp.onList]
  have hrange : (idx < 0 ∨ u32 idx > s.mem.length) ↔ idx < 0 ∨ idx > l.length := by
    refine or_congr_right' fun hneg => ?_
    obtain ⟨i, rfl⟩ := Int.eq_ofNat_of_zero_le (not_lt.mp hneg)
    rw [u32_of_nat (by omega), h.length]
    omega
  by_cases hout : idx < 0 ∨ idx > l.length
  · rw [if_pos (hrange.mpr hout), if_pos hout]
    exact ⟨rfl, .refl h⟩
  rw [if_neg (mt hrange.mp hout), if_neg hout]
  obtain ⟨i, rfl⟩ := Int.eq_ofNat_of_zero_le (a := idx) (by omega)
  obtain ⟨hok, hpos, hseek⟩ := after_lseek h.reliable .log (i * logEntryPackedSize)
  rw [Int.toNat_natCast, u32_of_nat (by omega)]
  dsimp only
  rw [if_neg hok]
  generalize (s.lseek .log (i * logEntryPackedSize)).2 = s₁ at hpos hseek ⊢
  obtain ⟨hsent, hwrite⟩ := after_write (hseek.faults.trans h.reliable) .log (entryBytes entry)
  rw [hpos, hseek.files, hseek.mem] at hwrite
  rw [if_neg (by rw [hsent, length_entryBytes]; exact not_not.mpr rfl)]
  generalize (s₁.write .log (entryBytes entry)).2 = s₂ at hwrite ⊢
  have hsync := after_fsync s₂
  rw [hwrite.files, hwrite.mem] at hsync
  have hstored := hseek.trans (hwrite.trans hsync)
  generalize s₂.fsync = s₃ at hstored ⊢
  have hlen : s₃.mem.length = l.length := by rw [hstored.mem, h.length]
  rcases Nat.lt_or_eq_of_le (show i ≤ l.length by omega) with hlt | rfl
  · -- below the end the entry itself is what takes effect
    have hset := h.holds.set hfits hlt
    rw [if_neg (by omega), if_neg (by omega)]
    refine ⟨rfl, ⟨by rw [hstored.files]; exact hset, by rw [hlen, List.length_set],
      hstored.faults.trans h.reliable⟩, _, hstored.past, ?_⟩
    intro f hf
    rcases List.mem_cons.mp hf with rfl | hf
    · exact .inl h.holds
    · rw [List.eq_of_mem_replicate (n := 2) hf]
      exact .inr hset
  · -- at the end it is the length
    obtain ⟨hbefore, hafter⟩ := h.holds.append hfits (by omega)
    rw [if_pos hlen.symm, if_pos rfl, hlen]
    have hgrown : u32 ((l.length : ℤ) + 1) = l.length + 1 := by
      exact_mod_cast u32_of_nat (n := l.length + 1) (by omega)
    rw [hgrown]
    have hfiles : Holds ({ s₃ with mem := ⟨l.length + 1⟩ } : FileLog).files l := by
      show Holds s₃.files l
      rw [hstored.files]
      exact hbefore
    obtain ⟨hwritten, hmeta⟩ := after_writeLength
      (s := { s₃ with mem := ⟨l.length + 1⟩ }) (hstored.faults.trans h.reliable) hfiles
    rw [if_pos hwritten]
    have hboth : After s₃ (writeLength { s₃ with mem := ⟨l.length + 1⟩ }).2
        (Function.update s₃.files .metadata (hostWord (l.length + 1))) ⟨l.length + 1⟩
        [s₃.files, Function.update s₃.files .metadata (hostWord (l.length + 1)),
          Function.update s₃.files .metadata (hostWord (l.length + 1))] :=
      ⟨hmeta.files, hmeta.mem, hmeta.faults, hmeta.past⟩
    generalize (writeLength { s₃ with mem := ⟨l.length + 1⟩ }).2 = s₄ at hboth ⊢
    rw [hstored.files] at hboth
    refine ⟨rfl, ⟨by rw [hboth.files]; exact hafter, ?_,
      hboth.faults.trans (hstored.faults.trans h.reliable)⟩, _, (hstored.trans hboth).past, ?_⟩
    · rw [hboth.mem, List.length_append, List.length_singleton]
    · intro f hf
      simp only [List.cons_append, List.nil_append, List.mem_cons,
        List.not_mem_nil, or_false] at hf
      rcases hf with rfl | rfl | rfl | rfl | rfl | rfl
      · exact .inl h.holds
      · exact .inl hbefore
      · exact .inl hbefore
      · exact .inl hbefore
      · exact .inr hafter
      · exact .inr hafter

theorem fLogRemoveLastN_turns (h : Represents s l) {n : ℤ} (hn : n < 2 ^ 31) :
    (s.fLogRemoveLastN n).1 = ((LogOp.removeLastN n).onList l).1 ∧
      Turns s (s.fLogRemoveLastN n).2 l ((LogOp.removeLastN n).onList l).2 := by
  rw [fLogRemoveLastN, LogOp.onList]
  by_cases hpos : n ≤ 0
  · rw [if_pos hpos, if_pos hpos]
    exact ⟨rfl, .refl h⟩
  rw [if_neg hpos, if_neg hpos]
  obtain ⟨k, rfl⟩ := Int.eq_ofNat_of_zero_le (a := n) (by omega)
  have hclamp : (if u32 k > s.mem.length then i32 s.mem.length else k) = min (k : ℤ) l.length := by
    rw [u32_of_nat (by omega), h.length]
    split
    · rw [i32_of_nat (by omega)]
      omega
    · omega
  have hshort : (l.take (l.length - k)).length = l.length - k := by
    rw [List.length_take]
    omega
  have hrest : u32 ((s.mem.length : ℤ) - min (k : ℤ) l.length) = (l.take (l.length - k)).length := by
    have hnat : (s.mem.length : ℤ) - min (k : ℤ) l.length = ((l.length - k : ℕ) : ℤ) := by
      rw [h.length]
      omega
    rw [hnat, u32_of_nat (by have := h.holds.small; omega), hshort]
  rw [hclamp]
  dsimp only
  rw [hrest, Int.toNat_natCast]
  have hcut := h.holds.take (l.length - k)
  generalize l.take (l.length - k) = l' at hcut ⊢
  obtain ⟨hwritten, hmeta⟩ := after_writeLength (s := { s with mem := ⟨l'.length⟩ }) h.reliable h.holds
  rw [if_pos hwritten]
  have hboth : After s (writeLength { s with mem := ⟨l'.length⟩ }).2
      (Function.update s.files .metadata (hostWord l'.length)) ⟨l'.length⟩
      [s.files, Function.update s.files .metadata (hostWord l'.length),
        Function.update s.files .metadata (hostWord l'.length)] :=
    ⟨hmeta.files, hmeta.mem, hmeta.faults, hmeta.past⟩
  generalize (writeLength { s with mem := ⟨l'.length⟩ }).2 = s₁ at hboth ⊢
  have htrunc := after_ftruncate s₁ .log (s₁.mem.length * logEntryPackedSize)
  rw [hboth.mem, hboth.files] at htrunc
  rw [hboth.mem]
  have hgone := hcut.truncate
  refine ⟨rfl, ⟨by rw [htrunc.files]; exact hgone, by rw [htrunc.mem],
    htrunc.faults.trans (hboth.faults.trans h.reliable)⟩, _, (hboth.trans htrunc).past, ?_⟩
  intro f hf
  simp only [List.cons_append, List.nil_append, List.mem_cons, List.not_mem_nil, or_false] at hf
  rcases hf with rfl | rfl | rfl | rfl
  · exact .inl h.holds
  · exact .inr hcut
  · exact .inr hcut
  · exact .inr hgone

/-! ### Starting a process -/

/-- Every process that is started finds the list that the files hold. -/
theorem logInit_represents (h : Holds files l) :
    Represents (logInit files) l ∧ ∀ f ∈ (logInit files).past, Holds f l := by
  rw [logInit]
  dsimp only
  have hreliable : (Sys.boot (⟨0⟩ : LogContext) files).faults = [] := rfl
  by_cases hshort : (files .metadata).length < 4
  · -- the file has just been made
    rw [if_pos hshort]
    have hnil : files .metadata = [] ∧ l = [] := by
      refine h.metadata.resolve_left fun hm => ?_
      rw [hm, length_hostWord] at hshort
      omega
    obtain ⟨hm, rfl⟩ := hnil
    obtain ⟨-, hwrite⟩ := after_write hreliable .metadata (hostWord 0)
    have hzero : (Sys.boot (⟨0⟩ : LogContext) files).pos .metadata = 0 := rfl
    have hfiles : (Sys.boot (⟨0⟩ : LogContext) files).files = files := rfl
    have hmem : (Sys.boot (⟨0⟩ : LogContext) files).mem = ⟨0⟩ := rfl
    rw [hzero, hfiles, hmem, h.writeAt_metadata] at hwrite
    have hmade := h.take 0
    rw [hmem]
    generalize ((Sys.boot (⟨0⟩ : LogContext) files).write .metadata (hostWord 0)).2 = s at hwrite ⊢
    have hsync := after_fsync s
    rw [hwrite.files, hwrite.mem] at hsync
    have hall := hwrite.trans hsync
    refine ⟨⟨by rw [hall.files]; exact hmade, by rw [hall.mem, List.length_nil],
      hall.faults.trans hreliable⟩, fun f hf => ?_⟩
    rw [hall.past] at hf
    rw [List.eq_of_mem_replicate (n := 2) hf]
    exact hmade
  · rw [if_neg hshort]
    have hword : files .metadata = hostWord l.length := by
      refine h.metadata.resolve_right fun hnil => ?_
      rw [hnil.1] at hshort
      exact hshort (by decide)
    obtain ⟨-, hpos, hseek⟩ := after_lseek hreliable .metadata 0
    generalize ((Sys.boot (⟨0⟩ : LogContext) files).lseek .metadata 0).2 = s at hpos hseek ⊢
    obtain ⟨hbytes, hread⟩ := after_read (hseek.faults.trans hreliable) .metadata 4
    have hfiles : (Sys.boot (⟨0⟩ : LogContext) files).files = files := rfl
    rw [hfiles] at hseek
    have hfound : readAt 0 4 (files .metadata) = hostWord l.length := by
      have hall := readAt_append [] (hostWord l.length) []
      rw [List.length_nil, List.nil_append, List.append_nil, length_hostWord] at hall
      rw [hword, hall]
    rw [hpos, hseek.files, hfound] at hbytes
    rw [hseek.files, hseek.mem] at hread
    have hall := hseek.trans hread
    generalize s.read .metadata 4 = word at hbytes hall ⊢
    rw [hbytes, ofHostWord_hostWord (by have := h.small; omega)]
    refine ⟨⟨?_, rfl, hall.faults.trans hreliable⟩, fun f hf => ?_⟩
    · show Holds word.2.files l
      rw [hall.files]
      exact h
    · have hf : f ∈ word.2.past := hf
      rw [hall.past] at hf
      rw [List.eq_of_mem_replicate (n := 2) hf]
      exact h

theorem recovered_eq (h : Holds files l) : recovered files = l.map some := by
  obtain ⟨hrep, -⟩ := logInit_represents h
  rw [recovered]
  generalize logInit files = s at hrep
  refine List.ext_getElem (by simp [hrep.length]) fun i hi hl => ?_
  rw [List.length_map] at hl
  have hsmall := h.small
  obtain ⟨hread, -⟩ := @fLogRead_turns _ _ hrep i (by omega) 0
  have hnonneg : ¬(i : ℤ) < 0 := by omega
  rw [LogOp.onList, if_neg hnonneg, Int.toNat_natCast, List.getElem?_eq_getElem hl] at hread
  rw [List.getElem_map, List.getElem_map, List.getElem_range, hread]

end FileLog

/-! ### Runs -/

/-- What the program sees of an operation on its log. -/
inductive LogEvent
  | returned (op : LogOp) (result : LogResult)
  | crashed (op : LogOp)
  deriving DecidableEq, Repr

/-- The files of a log, and the process that has them open if one does. -/
structure LogState where
  files : LogFile → List UInt8
  process : Option FileLog

/-- The files when the process ends after `k` of the calls of an operation. -/
def LogState.cut (st : LogState) (s : FileLog) (k : ℕ) : LogFile → List UInt8 :=
  (s.past.take k).getLast?.getD st.files

/-- The runs of the program, from no files at all. An operation returns, or the process
ends somewhere in it; then only `log_init` is left to call. -/
inductive FileRuns : List LogEvent → LogState → Prop
  | start : FileRuns [] ⟨fun _ => [], none⟩
  | returned {es : List LogEvent} {st : LogState} {op : LogOp} {result : LogResult} {s : FileLog}
      (h : FileRuns es st) (hfits : op.Fits)
      (hop : op.onFiles st.files st.process = some (result, s)) (hlen : s.mem.length < 2 ^ 31) :
      FileRuns (es ++ [.returned op result]) ⟨s.files, some { s with past := [] }⟩
  | crashed {es : List LogEvent} {st : LogState} {op : LogOp} {result : LogResult} {s : FileLog}
      (h : FileRuns es st) (hfits : op.Fits)
      (hop : op.onFiles st.files st.process = some (result, s)) (k : ℕ) :
      FileRuns (es ++ [.crashed op]) ⟨st.cut s k, none⟩

/-- What a list does in place of the files: it gives the same results, and an operation
that does not return has either happened or not. -/
inductive ListRuns : List LogEvent → List LogEntry → Prop
  | start : ListRuns [] []
  | returned {es : List LogEvent} {l : List LogEntry} (h : ListRuns es l) (op : LogOp) :
      ListRuns (es ++ [.returned op (op.onList l).1]) (op.onList l).2
  | before {es : List LogEvent} {l : List LogEntry} (h : ListRuns es l) (op : LogOp) :
      ListRuns (es ++ [.crashed op]) l
  | after {es : List LogEvent} {l : List LogEntry} (h : ListRuns es l) (op : LogOp) :
      ListRuns (es ++ [.crashed op]) (op.onList l).2

open FileLog

variable {op : LogOp} {result : LogResult} {l : List LogEntry} {s : FileLog}

/-- The state holds a list, and so does its process. -/
structure LogState.Models (st : LogState) (l : List LogEntry) : Prop where
  holds : Holds st.files l
  process : ∀ s ∈ st.process, Represents s l ∧ s.files = st.files ∧ s.past = [] ∧
    s.mem.length < 2 ^ 31

/-- One operation, wherever it is cut. -/
theorem LogOp.onFiles_models {st : LogState} (h : st.Models l) (hfits : op.Fits)
    (hop : op.onFiles st.files st.process = some (result, s)) :
    result = (op.onList l).1 ∧ Represents s (op.onList l).2 ∧
      ∀ k, Holds (st.cut s k) l ∨ Holds (st.cut s k) (op.onList l).2 := by
  have hcut : ∀ {calls l'}, s.past = calls → (∀ f ∈ calls, Holds f l ∨ Holds f l') →
      ∀ k, Holds (st.cut s k) l ∨ Holds (st.cut s k) l' := by
    intro calls l' hpast hcalls k
    rw [LogState.cut, hpast]
    cases hlast : (calls.take k).getLast? with
    | none => exact .inl h.holds
    | some f => exact hcalls f (List.mem_of_mem_take (List.mem_of_getLast? hlast))
  have hturns : ∀ {s₀ l'}, st.process = some s₀ → Turns s₀ s l l' →
      Represents s l' ∧ ∀ k, Holds (st.cut s k) l ∨ Holds (st.cut s k) l' := by
    intro s₀ l' hs hturn
    obtain ⟨calls, hpast, hcalls⟩ := hturn.past
    obtain ⟨-, -, hfresh, -⟩ := h.process s₀ hs
    rw [hfresh, List.nil_append] at hpast
    exact ⟨hturn.represents, hcut hpast hcalls⟩
  cases op with
  | init =>
      obtain ⟨rfl, rfl⟩ := Prod.mk.inj (Option.some.inj hop)
      obtain ⟨hrep, hpast⟩ := logInit_represents h.holds
      exact ⟨rfl, hrep, hcut rfl fun f hf => .inl (hpast f hf)⟩
  | read idx n =>
      cases hs : st.process with
      | none => rw [hs] at hop; cases hop
      | some s₀ =>
          rw [hs] at hop
          obtain ⟨hres, hturn⟩ := fLogRead_turns (h.process s₀ hs).1 hfits n
          obtain ⟨rfl, rfl⟩ := Prod.mk.inj (Option.some.inj hop)
          exact ⟨hres, hturns hs hturn⟩
  | write idx entry =>
      cases hs : st.process with
      | none => rw [hs] at hop; cases hop
      | some s₀ =>
          rw [hs] at hop
          obtain ⟨hres, hturn⟩ := fLogWrite_turns (h.process s₀ hs).1 hfits.1 hfits.2
          obtain ⟨rfl, rfl⟩ := Prod.mk.inj (Option.some.inj hop)
          exact ⟨hres, hturns hs hturn⟩
  | removeLastN n =>
      cases hs : st.process with
      | none => rw [hs] at hop; cases hop
      | some s₀ =>
          rw [hs] at hop
          obtain ⟨hres, hturn⟩ := fLogRemoveLastN_turns (h.process s₀ hs).1 hfits
          obtain ⟨rfl, rfl⟩ := Prod.mk.inj (Option.some.inj hop)
          exact ⟨hres, hturns hs hturn⟩
  | length =>
      cases hs : st.process with
      | none => rw [hs] at hop; cases hop
      | some s₀ =>
          rw [hs] at hop
          obtain ⟨hrep, -, -, hlen⟩ := h.process s₀ hs
          obtain ⟨rfl, rfl⟩ := Prod.mk.inj (Option.some.inj hop)
          refine ⟨?_, hturns hs (.refl hrep)⟩
          rw [LogOp.onList, fLogLength, i32_of_nat hlen, hrep.length]

/-- Every run of the files is a run of a list, with the same results, and it is the
list that a process finds that is started now. -/
theorem files_refine_list {es : List LogEvent} {st : LogState} (h : FileRuns es st) :
    ∃ l, ListRuns es l ∧ recovered st.files = l.map some := by
  suffices hmodels : ∃ l, ListRuns es l ∧ st.Models l by
    obtain ⟨l, hruns, hst⟩ := hmodels
    exact ⟨l, hruns, recovered_eq hst.holds⟩
  induction h with
  | start =>
      exact ⟨[], .start, ⟨⟨[], rfl⟩, .inr ⟨rfl, rfl⟩, by simp, by decide⟩, by simp⟩
  | returned h hfits hop hlen ih =>
      obtain ⟨l, hruns, hst⟩ := ih
      obtain ⟨rfl, hrep, -⟩ := LogOp.onFiles_models hst hfits hop
      refine ⟨_, hruns.returned _, hrep.holds, ?_⟩
      rintro s hs
      obtain rfl := Option.some.inj hs
      exact ⟨⟨hrep.holds, hrep.length, hrep.reliable⟩, rfl, rfl, hlen⟩
  | crashed h hfits hop k ih =>
      obtain ⟨l, hruns, hst⟩ := ih
      obtain ⟨-, -, hcut⟩ := LogOp.onFiles_models hst hfits hop
      rcases hcut k with hl | hl
      · exact ⟨l, hruns.before _, hl, by simp⟩
      · exact ⟨_, hruns.after _, hl, by simp⟩

/-- An entry is written, and the process ends when its length is on disk. -/
theorem files_refine_list_crash : ∃ es st, FileRuns es st ∧
    es = [.returned .init ⟨0, none⟩, .crashed (.write 0 ⟨1, 2, 3, 4⟩)] ∧
    recovered st.files = [some ⟨1, 2, 3, 4⟩] ∧ ∃ l, ListRuns es l ∧ recovered st.files = l.map some := by
  have hinit := @FileRuns.returned _ _ .init _ _ .start trivial rfl (by decide +kernel)
  have hfits : (LogOp.write 0 ⟨1, 2, 3, 4⟩).Fits := ⟨by decide, by decide, by decide, by decide, by decide⟩
  have hcrash := @FileRuns.crashed _ _ _ _ _ hinit hfits rfl 5
  exact ⟨_, _, hcrash, rfl, by decide +kernel, files_refine_list hcrash⟩

end GeoRaft
