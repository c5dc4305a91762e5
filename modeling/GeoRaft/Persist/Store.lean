import GeoRaft.Node.Simulation
import GeoRaft.Persist.Fields
import GeoRaft.Persist.Refinement

/-!
The storage of a node in its three files.

A node is given the dispatch tables of the log and of the persistent fields. What they do to
the files is what `Disk` does to a list and two numbers, and a process that is stopped in the
middle of a call leaves files that stand for the disk from before the call or from after it.
-/

namespace GeoRaft

open Word Files

/-- `raft_<id>.log`, `raft_<id>.log.meta` and `raft_<id>.state`. -/
structure NodeFiles where
  log : LogFile → List UInt8
  state : StateFile → List UInt8

/-- The contexts of `log_t` and `persistent_fields_t`. -/
structure FileStore where
  log : FileLog
  state : FieldsFile

/-- `sizeof(log_entry_t)`, which every caller passes as `n`. -/
def logEntrySize : ℤ := 16

/-- The value of a field on a disk. -/
def Disk.field (d : Disk) : PersistentField → ℕ
  | .currentTerm => d.currentTerm
  | .votedFor => d.votedFor

namespace FileStore

instance : Storage FileStore where
  get f s := (s.state.pfGet f).1
  set f v s := ((s.state.pfSet f v).1, { s with state := (s.state.pfSet f v).2 })
  length s := s.log.fLogLength.code
  read idx s :=
    let result := (s.log.fLogRead idx logEntrySize).1
    if result.code = logEntrySize then result.entry else none
  write idx entry s :=
    ((s.log.fLogWrite idx entry).1.code, { s with log := (s.log.fLogWrite idx entry).2 })
  removeLastN n s :=
    ((s.log.fLogRemoveLastN n).1.code, { s with log := (s.log.fLogRemoveLastN n).2 })

def files (s : FileStore) : NodeFiles := ⟨s.log.files, s.state.files⟩

/-- The files when the process ends after `j` of the system calls from `s` to `s'`. -/
def interrupted (s s' : FileStore) (j : ℕ) : NodeFiles where
  log := (((s'.log.past.drop s.log.past.length).take j).getLast?).getD s.log.files
  state := (((s'.state.past.drop s.state.past.length).take j).getLast?).getD s.state.files

/-- `log_init` and `persistent_fields_init`. -/
def boot (files : NodeFiles) : FileStore where
  log := FileLog.logInit files.log
  state := FieldsFile.persistentFieldsInit files.state

end FileStore

/-- The files when a process ends after `j` of the system calls it starts with. -/
def NodeFiles.bootCut (files : NodeFiles) (j : ℕ) : NodeFiles :=
  let s := FileStore.boot files
  ⟨((s.log.past.take j).getLast?).getD files.log,
    ((s.state.past.take (j - s.log.past.length)).getLast?).getD files.state⟩

/-- The files stand for the disk. -/
structure NodeFiles.Holds (files : NodeFiles) (d : Disk) : Prop where
  log : FileLog.Holds files.log d.log
  state : FieldsFile.Holds files.state d.field

/-- So does this storage. -/
structure FileStore.Represents (s : FileStore) (d : Disk) : Prop where
  log : FileLog.Represents s.log d.log
  state : FieldsFile.Represents s.state d.field

namespace FileStore

variable {s s' : FileStore} {d d' : Disk}

theorem Represents.holds (h : Represents s d) : s.files.Holds d := ⟨h.log.holds, h.state.holds⟩

/-- Files on disk, and the disk, for as long as a call takes. -/
def onDisk : Correspondence FileStore Disk where
  same := Represents
  step p q := ∀ j, (p.1.interrupted q.1 j).Holds p.2 ∨ (p.1.interrupted q.1 j).Holds q.2

/-- The last of the states that some calls went through. -/
theorem getLast_calls {α : Type} {P : α → Prop} {a : α} (past : List α) {calls : List α} (ha : P a)
    (hcalls : ∀ b ∈ calls, P b) (j : ℕ) :
    P (((((past ++ calls).drop past.length).take j).getLast?).getD a) := by
  rw [List.drop_left]
  cases hlast : (calls.take j).getLast? with
  | none => exact ha
  | some b => exact hcalls b (List.mem_of_mem_take (List.mem_of_getLast? hlast))

theorem getLast_self {α : Type} (a : α) (past : List α) (j : ℕ) :
    (((past.drop past.length).take j).getLast?).getD a = a := by
  rw [List.drop_length, List.take_nil]
  rfl

/-- A call on the log. -/
theorem changes_log (h : Represents s d) {log : FileLog} {l : List LogEntry}
    (hturns : FileLog.Turns s.log log d.log l) :
    onDisk.Changes (s, d) ({ s with log := log }, { d with log := l }) := by
  obtain ⟨hrep, calls, hpast, hcalls⟩ := hturns
  refine ⟨⟨hrep, h.state⟩, fun j => ?_⟩
  have hlog : FileLog.Holds (interrupted s { s with log := log } j).log d.log ∨
      FileLog.Holds (interrupted s { s with log := log } j).log l := by
    dsimp only [interrupted]
    rw [hpast]
    exact getLast_calls (P := fun f => FileLog.Holds f d.log ∨ FileLog.Holds f l) _
      (.inl h.log.holds) hcalls j
  have hstate : (interrupted s { s with log := log } j).state = s.state.files := getLast_self _ _ j
  refine hlog.imp (fun hold => ⟨hold, ?_⟩) fun hold => ⟨hold, ?_⟩
  all_goals
    rw [hstate]
    exact h.state.holds

/-- A call on the fields. -/
theorem changes_state (h : Represents s d) {state : FieldsFile} (hlog : d'.log = d.log)
    (hrep : FieldsFile.Represents state d'.field)
    (hpast : ∃ calls, state.past = s.state.past ++ calls ∧
      ∀ files ∈ calls, FieldsFile.Holds files d.field ∨ FieldsFile.Holds files d'.field) :
    onDisk.Changes (s, d) ({ s with state := state }, d') := by
  obtain ⟨calls, hpast, hcalls⟩ := hpast
  refine ⟨⟨by rw [hlog]; exact h.log, hrep⟩, fun j => ?_⟩
  have hstate : FieldsFile.Holds (interrupted s { s with state := state } j).state d.field ∨
      FieldsFile.Holds (interrupted s { s with state := state } j).state d'.field := by
    dsimp only [interrupted]
    rw [hpast]
    exact getLast_calls (P := fun f => FieldsFile.Holds f d.field ∨ FieldsFile.Holds f d'.field) _
      (.inl h.state.holds) hcalls j
  have hfiles : (interrupted s { s with state := state } j).log = s.log.files := getLast_self _ _ j
  refine hstate.imp (fun hold => ⟨?_, hold⟩) fun hold => ⟨?_, hold⟩
  · rw [hfiles]
    exact h.log.holds
  · rw [hfiles, hlog]
    exact h.log.holds

/-! ### The disk is what the files mean -/

theorem disk_field_set (f : PersistentField) {v : ℕ} (hv : v < 2 ^ 32) (d : Disk) :
    (Storage.set f v d).2.field = Function.update d.field f v := by
  have hword : u32 v = v := u32_of_nat hv
  funext g
  cases f <;> cases g <;>
    simp [Disk.field, Function.update, Disk.set_currentTerm, Disk.set_votedFor, hword]

theorem disk_read {idx : ℤ} (hidx : idx < 2 ^ 31) (d : Disk) :
    d.read idx = if idx < 0 then none else d.log[idx.toNat]? := by
  rw [Disk.read]
  by_cases hneg : idx < 0
  · rw [if_pos (.inl hneg), if_pos hneg]
  obtain ⟨i, rfl⟩ := Int.eq_ofNat_of_zero_le (not_lt.mp hneg)
  rw [if_neg hneg, u32_of_nat (by omega), Int.toNat_natCast]
  split
  · rw [List.getElem?_eq_none (by omega)]
  · rfl

theorem disk_write {idx : ℤ} (hidx : idx < 2 ^ 31) (entry : LogEntry) (d : Disk) :
    (d.write idx entry).2 = { d with log := ((LogOp.write idx entry).onList d.log).2 } := by
  rw [Disk.write, LogOp.onList]
  by_cases hneg : idx < 0
  · rw [if_pos (.inl hneg), if_pos (.inl hneg)]
  obtain ⟨i, rfl⟩ := Int.eq_ofNat_of_zero_le (not_lt.mp hneg)
  rw [u32_of_nat (by omega), Int.toNat_natCast]
  by_cases hout : i > d.log.length
  · rw [if_pos (.inr hout), if_pos (.inr (by omega))]
  have hin : ¬((i : ℤ) < 0 ∨ i > d.log.length) := by omega
  have hin' : ¬((i : ℤ) < 0 ∨ (i : ℤ) > d.log.length) := by omega
  rw [if_neg hin, if_neg hin']
  by_cases hend : i = d.log.length
  · rw [if_pos hend, if_pos (by omega)]
  · rw [if_neg hend, if_neg (by omega)]

theorem disk_removeLastN {n : ℤ} (hn : n < 2 ^ 31) {d : Disk} (hsmall : d.log.length ≤ 2 ^ 31) :
    (d.removeLastN n).2 = { d with log := ((LogOp.removeLastN n).onList d.log).2 } := by
  rw [Disk.removeLastN, LogOp.onList]
  by_cases hpos : n ≤ 0
  · rw [if_pos hpos, if_pos hpos]
  obtain ⟨k, rfl⟩ := Int.eq_ofNat_of_zero_le (a := n) (by omega)
  rw [if_neg hpos, if_neg hpos, u32_of_nat (by omega), Int.toNat_natCast]
  dsimp only
  split
  · rw [i32_of_nat (by omega), u32_of_nat (by omega), Nat.sub_self, Nat.sub_eq_zero_of_le (by omega)]
  · rw [u32_of_nat (by omega)]

/-- The files of a node do what its disk does. -/
theorem simulates_disk : Simulates onDisk where
  get {s d} h f := by
    refine (FieldsFile.pfGet_eq h.state f).trans ?_
    cases f <;> rfl
  set {s d} h f v hv := by
    obtain ⟨hrep, hpast⟩ := FieldsFile.pfSet_represents h.state f hv
    rw [← disk_field_set f hv d] at hrep hpast
    refine changes_state h ?_ hrep hpast
    cases f <;> rfl
  set_length {s d} _ f v := by cases f <;> rfl
  length {s d} h := by
    show i32 s.log.mem.length = i32 d.log.length
    rw [h.log.length]
  length_lt {s d} _ := i32_lt _
  read {s d} h idx hidx := by
    have hbound : Disk.eobnd ≠ logEntrySize := by decide
    show (if (s.log.fLogRead idx logEntrySize).1.code = logEntrySize then
      (s.log.fLogRead idx logEntrySize).1.entry else none) = d.read idx
    rw [(FileLog.fLogRead_turns h.log hidx logEntrySize).1, disk_read hidx, LogOp.onList]
    split
    · exact if_neg (t := none) hbound
    · cases d.log[idx.toNat]? with
      | none => exact if_neg hbound
      | some entry => exact if_pos rfl
  write {s d} h idx hidx entry hentry := by
    have hchange := changes_log h (FileLog.fLogWrite_turns h.log hidx hentry).2
    rwa [← disk_write hidx] at hchange
  removeLastN {s d} h n hn := by
    have hchange := changes_log h (FileLog.fLogRemoveLastN_turns h.log hn).2
    rwa [← disk_removeLastN hn h.log.holds.small] at hchange

/-! ### Starting a process -/

variable {files : NodeFiles}

theorem boot_represents (h : files.Holds d) : Represents (boot files) d where
  log := (FileLog.logInit_represents h.log).1
  state := (FieldsFile.persistentFieldsInit_represents h.state).1

/-- A start that is cut off leaves files that stand for the same disk. -/
theorem bootCut_holds (h : files.Holds d) (j : ℕ) : (files.bootCut j).Holds d where
  log := getLast_calls (P := fun f => FileLog.Holds f d.log) [] h.log
    (FileLog.logInit_represents h.log).2 j
  state := getLast_calls (P := fun f => FieldsFile.Holds f d.field) [] h.state
    (FieldsFile.persistentFieldsInit_represents h.state).2 _

/-- Files that do not exist yet. -/
theorem none_holds : NodeFiles.Holds ⟨fun _ => [], fun _ => []⟩ Disk.init where
  log := ⟨⟨[], rfl⟩, .inr ⟨rfl, rfl⟩, by simp [Disk.init], by decide⟩
  state := ⟨.inr ⟨rfl, by funext f; cases f <;> rfl⟩, by
    intro f
    cases f <;> decide⟩

end FileStore

end GeoRaft
