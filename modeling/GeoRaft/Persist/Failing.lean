import GeoRaft.Persist.Log

/-!
Operations on the log that fail.

The length in memory moves before the length on disk is written. When that write,
or the seek before it, fails, the operation says so and the length has changed.
-/

namespace GeoRaft.FileLog

open Word Octets Files

variable {s s' : FileLog}

/-- The process from here on, with calls that do not fail. -/
def calm (s : FileLog) : FileLog := { s with faults := [] }

/-- The log is the same: in memory, on disk, and to a process that is started anew. -/
structure Unchanged (s s' : FileLog) : Prop where
  length : s'.fLogLength = s.fLogLength
  reads : ∀ idx n, (s'.calm.fLogRead idx n).1 = (s.calm.fLogRead idx n).1
  recovered : recovered s'.files = recovered s.files

/-- An entry was written behind the last one, and its length was not. -/
def AppendCutShort (s : FileLog) (idx : ℤ) : Prop :=
  idx = s.mem.length ∧ s.fails 0 = false ∧ s.fails 1 = false ∧ (s.fails 2 = true ∨ s.fails 3 = true)

/-- The length of a log that is to be cut was not written. -/
def RemovalCutShort (s : FileLog) (n : ℤ) : Prop :=
  0 < n ∧ 0 < s.mem.length ∧ (s.fails 0 = true ∨ s.fails 1 = true)

/-! ### What fails and what does not -/

theorem fLogRead_code (h : s.faults = []) (idx n : ℤ) :
    (s.fLogRead idx n).1 =
      if idx < 0 ∨ u32 idx ≥ s.mem.length then ⟨Disk.eobnd, none⟩
      else if (readAt (idx.toNat * logEntryPackedSize) logEntryPackedSize (s.files .log)).length ≠
          logEntryPackedSize then ⟨-1, none⟩
      else ⟨n, some (logEntryUnpack 0
        (readAt (idx.toNat * logEntryPackedSize) logEntryPackedSize (s.files .log)))⟩ := by
  rw [fLogRead]
  split
  · rfl
  · rw [Sys.lseek_done (Sys.fails_of_reliable h 0)]
    dsimp only
    rw [if_neg (by omega), Sys.read_done (by rw [Sys.fails_done, Sys.fails_of_reliable h])]
    have hpos : (s.done s.files (Function.update s.pos .log (idx.toNat * logEntryPackedSize))).pos .log =
        idx.toNat * logEntryPackedSize := by
      simp [Sys.done]
    have hfiles : (s.done s.files (Function.update s.pos .log
        (idx.toNat * logEntryPackedSize))).files = s.files := rfl
    rw [hpos, hfiles]
    split <;> rfl

/-- What is read depends on the bytes and the length alone. -/
theorem unchanged_of_eq (hf : s'.files = s.files) (hm : s'.mem = s.mem) : Unchanged s s' where
  length := by rw [fLogLength, fLogLength, hm]
  reads idx n := by
    rw [fLogRead_code rfl, fLogRead_code rfl]
    have hfiles : s'.calm.files = s.calm.files := hf
    have hmem : s'.calm.mem = s.calm.mem := hm
    rw [hfiles, hmem]
  recovered := by rw [hf]

/-- A log of another length is not the same. -/
theorem changed_of_ne (hne : s'.mem.length ≠ s.mem.length) (h : s.mem.length < 2 ^ 31)
    (h' : s'.mem.length ≤ 2 ^ 31) : ¬Unchanged s s' := by
  intro hu
  have hcode := congrArg LogResult.code hu.length
  rw [fLogLength, fLogLength] at hcode
  dsimp only at hcode
  rw [i32_of_nat h] at hcode
  rcases Nat.lt_or_eq_of_le h' with hlt | heq
  · rw [i32_of_nat hlt] at hcode
    omega
  · have hneg := (i32_nonneg_iff (n := s'.mem.length) (by omega)).not.mpr (by omega)
    omega

theorem writeLength_fst (s : FileLog) :
    (writeLength s).1 = true ↔ s.fails 0 = false ∧ s.fails 1 = false := by
  rw [writeLength]
  dsimp only
  cases h0 : s.fails 0 with
  | true =>
      rw [Sys.lseek_failed h0, if_pos rfl]
      simp
  | false =>
      rw [Sys.lseek_done h0]
      dsimp only
      rw [if_neg (by omega)]
      cases h1 : s.fails 1 with
      | true =>
          rw [Sys.write_failed (by rw [Sys.fails_done, h1])]
          simp
      | false =>
          rw [Sys.write_done (by rw [Sys.fails_done, h1])]
          simp [length_hostWord]

/-- The word that is not written leaves the file as it was. -/
theorem writeLength_failed (h : (writeLength s).1 = false) :
    (writeLength s).2.files = s.files ∧ (writeLength s).2.mem = s.mem := by
  rw [writeLength] at h ⊢
  dsimp only at h ⊢
  cases h0 : s.fails 0 with
  | true =>
      rw [Sys.lseek_failed h0, if_pos rfl]
      exact ⟨rfl, rfl⟩
  | false =>
      rw [Sys.lseek_done h0] at h ⊢
      dsimp only at h ⊢
      rw [if_neg (by omega)] at h ⊢
      cases h1 : s.fails 1 with
      | true =>
          rw [Sys.write_failed (by rw [Sys.fails_done, h1])]
          exact ⟨rfl, rfl⟩
      | false =>
          rw [Sys.write_done (by rw [Sys.fails_done, h1])] at h
          simp [length_hostWord] at h

/-! ### When a failed operation changes nothing -/

theorem fLogWrite_unchanged_iff (hlen : s.mem.length < 2 ^ 31) {idx : ℤ} (hidx : idx < 2 ^ 31)
    (entry : LogEntry) :
    ((s.fLogWrite idx entry).1.code < 0 → Unchanged s (s.fLogWrite idx entry).2) ↔
      ¬s.AppendCutShort idx := by
  rw [fLogWrite]
  by_cases hout : idx < 0 ∨ u32 idx > s.mem.length
  · rw [if_pos hout]
    refine iff_of_true (fun _ => unchanged_of_eq rfl rfl) fun hcut => ?_
    rw [hcut.1, u32_of_nat (by omega)] at hout
    omega
  rw [if_neg hout]
  obtain ⟨i, rfl⟩ := Int.eq_ofNat_of_zero_le (a := idx) (by omega)
  rw [u32_of_nat (by omega)] at hout ⊢
  dsimp only
  cases h0 : s.fails 0 with
  | true =>
      rw [Sys.lseek_failed h0, if_pos rfl]
      refine iff_of_true (fun _ => unchanged_of_eq rfl rfl) fun hcut => ?_
      rw [hcut.2.1] at h0
      cases h0
  | false =>
  rw [Sys.lseek_done h0]
  dsimp only
  rw [if_neg (by omega)]
  cases h1 : s.fails 1 with
  | true =>
      rw [Sys.write_failed (by rw [Sys.fails_done, h1]), if_pos (by simp [logEntryPackedSize])]
      refine iff_of_true (fun _ => unchanged_of_eq rfl rfl) fun hcut => ?_
      rw [hcut.2.2.1] at h1
      cases h1
  | false =>
  rw [Sys.write_done (by rw [Sys.fails_done, h1])]
  dsimp only
  rw [if_neg (by rw [length_entryBytes]; exact not_not.mpr rfl)]
  generalize hs : Sys.fsync _ = s₁
  have hmem : s₁.mem = s.mem := by
    rw [← hs]
    rfl
  have hfails : ∀ k, s₁.fails k = s.fails (k + 2) := by
    intro k
    rw [← hs, show ∀ m : FileLog, m.fsync.fails k = m.fails k from fun _ => rfl, Sys.fails_done,
      Sys.fails_done]
  rw [hmem]
  by_cases hend : i = s.mem.length
  · rw [if_pos hend]
    have hok := writeLength_fst { s₁ with mem := ⟨u32 (s.mem.length + 1)⟩ }
    have hfst : (writeLength { s₁ with mem := ⟨u32 (s.mem.length + 1)⟩ }).1 = true ↔
        s.fails 2 = false ∧ s.fails 3 = false := by
      rw [hok, ← hfails 0, ← hfails 1]
      rfl
    have hrest := @writeLength_failed { s₁ with mem := ⟨u32 (s.mem.length + 1)⟩ }
    generalize writeLength { s₁ with mem := ⟨u32 (s.mem.length + 1)⟩ } = w at hfst hrest ⊢
    cases hw : w.1 with
    | true =>
        rw [if_pos rfl]
        refine iff_of_true (fun hneg => absurd hneg (lt_irrefl 0)) fun hcut => ?_
        obtain ⟨h2, h3⟩ := hfst.mp hw
        rcases hcut.2.2.2 with hfail | hfail
        · rw [h2] at hfail
          cases hfail
        · rw [h3] at hfail
          cases hfail
    | false =>
        rw [if_neg Bool.false_ne_true]
        have hgrown : w.2.mem.length = s.mem.length + 1 := by
          rw [(hrest hw).2]
          exact_mod_cast u32_of_nat (n := s.mem.length + 1) (by omega)
        have hchanged : ¬Unchanged s w.2 := changed_of_ne (by omega) hlen (by omega)
        have hneg : (-1 : ℤ) < 0 := by decide
        refine iff_of_false (fun h => hchanged (h hneg)) (not_not.mpr ⟨by rw [hend], h0, h1, ?_⟩)
        by_contra hno
        rw [not_or, Bool.not_eq_true, Bool.not_eq_true] at hno
        rw [hfst.mpr hno] at hw
        cases hw
  · rw [if_neg hend]
    refine iff_of_true (fun hneg => absurd hneg (lt_irrefl 0)) fun hcut => ?_
    have := hcut.1
    omega

theorem fLogRemoveLastN_unchanged_iff (hlen : s.mem.length < 2 ^ 31) {n : ℤ} (hn : n < 2 ^ 31) :
    ((s.fLogRemoveLastN n).1.code < 0 → Unchanged s (s.fLogRemoveLastN n).2) ↔
      ¬s.RemovalCutShort n := by
  rw [fLogRemoveLastN]
  by_cases hpos : n ≤ 0
  · rw [if_pos hpos]
    refine iff_of_true (fun hneg => absurd hneg (lt_irrefl 0)) fun hcut => ?_
    have := hcut.1
    omega
  rw [if_neg hpos]
  obtain ⟨k, rfl⟩ := Int.eq_ofNat_of_zero_le (a := n) (by omega)
  have hclamp : (if u32 k > s.mem.length then i32 s.mem.length else k) =
      ((min k s.mem.length : ℕ) : ℤ) := by
    rw [u32_of_nat (by omega)]
    split
    · rw [i32_of_nat hlen]
      omega
    · omega
  have hrest : u32 ((s.mem.length : ℤ) - (min k s.mem.length : ℕ)) = s.mem.length - k := by
    have hnat : (s.mem.length : ℤ) - (min k s.mem.length : ℕ) = ((s.mem.length - k : ℕ) : ℤ) := by
      omega
    rw [hnat, u32_of_nat (by omega)]
  rw [hclamp]
  dsimp only
  rw [hrest]
  have hfst : (writeLength { s with mem := ⟨s.mem.length - k⟩ }).1 = true ↔
      s.fails 0 = false ∧ s.fails 1 = false := writeLength_fst _
  have hfailed := @writeLength_failed { s with mem := ⟨s.mem.length - k⟩ }
  generalize writeLength { s with mem := ⟨s.mem.length - k⟩ } = w at hfst hfailed ⊢
  cases hw : w.1 with
  | true =>
      rw [if_pos rfl]
      refine iff_of_true (fun hneg => ?_) fun hcut => ?_
      · dsimp only at hneg
        omega
      · obtain ⟨h0, h1⟩ := hfst.mp hw
        rcases hcut.2.2 with hfail | hfail
        · rw [h0] at hfail
          cases hfail
        · rw [h1] at hfail
          cases hfail
  | false =>
      rw [if_neg Bool.false_ne_true]
      obtain ⟨hfiles, hmem⟩ := hfailed hw
      have hcalls : s.fails 0 = true ∨ s.fails 1 = true := by
        by_contra hno
        rw [not_or, Bool.not_eq_true, Bool.not_eq_true] at hno
        rw [hfst.mpr hno] at hw
        cases hw
      rcases Nat.eq_zero_or_pos s.mem.length with hempty | hfull
      · -- nothing can be taken from an empty log
        refine iff_of_true (fun _ => unchanged_of_eq hfiles ?_) fun hcut => ?_
        · rw [hmem, hempty, Nat.zero_sub, ← hempty]
        · have := hcut.2.1
          omega
      · have hless : w.2.mem.length = s.mem.length - k := by rw [hmem]
        have hchanged : ¬Unchanged s w.2 := changed_of_ne (by omega) hlen (by omega)
        have hneg : (-1 : ℤ) < 0 := by decide
        exact iff_of_false (fun h => hchanged (h hneg)) (not_not.mpr ⟨by omega, hfull, hcalls⟩)

/-- A failed operation changes nothing, but for an append and a removal whose length
does not reach the disk. -/
theorem failed_operation (hlen : s.mem.length < 2 ^ 31) {k : ℤ} (hk : k < 2 ^ 31) :
    (∀ entry, ((s.fLogWrite k entry).1.code < 0 → Unchanged s (s.fLogWrite k entry).2) ↔
      ¬s.AppendCutShort k) ∧
    (((s.fLogRemoveLastN k).1.code < 0 → Unchanged s (s.fLogRemoveLastN k).2) ↔
      ¬s.RemovalCutShort k) :=
  ⟨fLogWrite_unchanged_iff hlen hk, fLogRemoveLastN_unchanged_iff hlen hk⟩

/-- An empty log whose calls fail as listed. -/
def failing (faults : List Bool) : FileLog :=
  { logInit fun _ => [] with faults := faults }

/-- The entry itself is not written. -/
theorem failed_operation_entry :
    ((failing [false, true]).fLogWrite 0 ⟨1, 2, 3, 4⟩).1.code = -1 ∧
      Unchanged (failing [false, true]) ((failing [false, true]).fLogWrite 0 ⟨1, 2, 3, 4⟩).2 := by
  have hcode : ((failing [false, true]).fLogWrite 0 ⟨1, 2, 3, 4⟩).1.code = -1 := by decide +kernel
  have hlen : (failing [false, true]).mem.length < 2 ^ 31 := by decide +kernel
  have hfail : (failing [false, true]).fails 1 = true := by decide +kernel
  refine ⟨hcode, ((failed_operation hlen (by decide)).1 ⟨1, 2, 3, 4⟩).mpr (fun hcut => ?_) ?_⟩
  · rw [hcut.2.2.1] at hfail
    cases hfail
  · rw [hcode]
    decide

/-- The length of an appended entry is not written: the append has failed, and the log
has one entry more. -/
theorem failed_operation_length :
    ((failing [false, false, false, true]).fLogWrite 0 ⟨1, 2, 3, 4⟩).1.code = -1 ∧
      ¬Unchanged (failing [false, false, false, true])
        ((failing [false, false, false, true]).fLogWrite 0 ⟨1, 2, 3, 4⟩).2 := by
  refine ⟨by decide +kernel, fun hu => ?_⟩
  have hlength := hu.length
  revert hlength
  decide +kernel

end GeoRaft.FileLog
