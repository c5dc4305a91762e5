import GeoRaft.Library.Files
import GeoRaft.Wire.Codec

/-!
The log in two files: `persist-unix/log.c`.

The entries stand one after the other in the first file, packed; how many of them
count is one word in the second. What the first holds behind them is of no account.
-/

namespace GeoRaft

open Word Octets Files

inductive LogFile
  | log
  | metadata
  deriving DecidableEq, Repr

/-- `log_context_t` without its two descriptors. -/
structure LogContext where
  length : ℕ
  deriving DecidableEq, Repr

abbrev FileLog := Sys LogFile LogContext

/-- A `uint32_t` as it lies in memory, lowest byte first. -/
def hostWord (v : ℕ) : List UInt8 := (ofU32 v).reverse

def ofHostWord (buf : List UInt8) : ℕ := readU32Be 0 buf.reverse

theorem ofHostWord_hostWord {v : ℕ} (h : v < 2 ^ 32) : ofHostWord (hostWord v) = v := by
  have hread := readU32Be_ofU32 h []
  rw [List.append_nil] at hread
  rw [ofHostWord, hostWord, List.reverse_reverse, hread]

theorem length_hostWord (v : ℕ) : (hostWord v).length = 4 := rfl

/-- What a call returns, and the entry if it writes one to its caller. -/
structure LogResult where
  code : ℤ
  entry : Option LogEntry
  deriving DecidableEq, Repr

/-- The buffer that `f_log_write` packs an entry into. -/
def entryBytes (entry : LogEntry) : List UInt8 :=
  (logEntryPack 0 (List.replicate logEntryPackedSize 0) entry).2

theorem entryBytes_eq (entry : LogEntry) : entryBytes entry = bytesOf entry.fields := by
  have hlen : (bytesOf entry.fields).length = 16 := rfl
  rw [entryBytes, logEntryPack, writeFields_zero _ _ (by rw [hlen]; exact le_rfl), hlen,
    logEntryPackedSize, List.drop_replicate, List.replicate_zero, List.append_nil]

theorem length_entryBytes (entry : LogEntry) : (entryBytes entry).length = logEntryPackedSize := by
  rw [entryBytes_eq]
  rfl

namespace FileLog

def fLogRead (idx n : ℤ) (s : FileLog) : LogResult × FileLog :=
  if idx < 0 ∨ u32 idx ≥ s.mem.length then (⟨Disk.eobnd, none⟩, s)
  else
    let seek := s.lseek .log (idx.toNat * logEntryPackedSize)
    if seek.1 = -1 then (⟨-1, none⟩, seek.2)
    else
      let buf := seek.2.read .log logEntryPackedSize
      if buf.1.length ≠ logEntryPackedSize then (⟨-1, none⟩, buf.2)
      else (⟨n, some (logEntryUnpack 0 buf.1)⟩, buf.2)

/-- The length goes to the second file. -/
def writeLength (s : FileLog) : Bool × FileLog :=
  let seek := s.lseek .metadata 0
  if seek.1 = -1 then (false, seek.2)
  else
    let sent := seek.2.write .metadata (hostWord s.mem.length)
    if sent.1 ≠ 4 then (false, sent.2) else (true, sent.2.fsync)

def fLogWrite (idx : ℤ) (entry : LogEntry) (s : FileLog) : LogResult × FileLog :=
  if idx < 0 ∨ u32 idx > s.mem.length then (⟨Disk.eobnd, none⟩, s)
  else
    let seek := s.lseek .log (idx.toNat * logEntryPackedSize)
    if seek.1 = -1 then (⟨-1, none⟩, seek.2)
    else
      let sent := seek.2.write .log (entryBytes entry)
      if sent.1 ≠ logEntryPackedSize then (⟨-1, none⟩, sent.2)
      else
        let s := sent.2.fsync
        if u32 idx = s.mem.length then
          let written := writeLength { s with mem := ⟨u32 (s.mem.length + 1)⟩ }
          (⟨if written.1 then 0 else -1, none⟩, written.2)
        else (⟨0, none⟩, s)

def fLogLength (s : FileLog) : LogResult := ⟨i32 s.mem.length, none⟩

def fLogRemoveLastN (n : ℤ) (s : FileLog) : LogResult × FileLog :=
  if n ≤ 0 then (⟨0, none⟩, s)
  else
    let n := if u32 n > s.mem.length then i32 s.mem.length else n
    let written := writeLength { s with mem := ⟨u32 (s.mem.length - n)⟩ }
    if written.1 then
      (⟨n, none⟩, written.2.ftruncate .log (written.2.mem.length * logEntryPackedSize))
    else (⟨-1, none⟩, written.2)

/-- `log_init`. A file that is not there yet is the empty file that `open` makes of
it, and neither `open` nor `fstat` changes what a later process finds. -/
def logInit (files : LogFile → List UInt8) : FileLog :=
  let s := Sys.boot ⟨0⟩ files
  if (files .metadata).length < 4 then (s.write .metadata (hostWord s.mem.length)).2.fsync
  else
    let word := (s.lseek .metadata 0).2.read .metadata 4
    { word.2 with mem := ⟨ofHostWord word.1⟩ }

/-- What a process that is started on these files reads at each index of its log. -/
def recovered (files : LogFile → List UInt8) : List (Option LogEntry) :=
  let s := logInit files
  (List.range s.mem.length).map fun (i : ℕ) => (fLogRead i 0 s).1.entry

end FileLog

end GeoRaft
