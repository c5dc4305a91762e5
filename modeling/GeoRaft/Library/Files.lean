import Mathlib.Data.Int.Notation
import Mathlib.Data.List.Basic
import Mathlib.Data.Nat.Notation
import Mathlib.Logic.Function.Basic

/-!
Files under a process that can fail and be stopped.

A file is its bytes, and a file descriptor has an offset that reads and writes go
on from. Each system call is one step: it takes effect at once or, if `faults` says
so, fails without effect. The state of the files after every call is kept, because
a process that is stopped between two of them leaves just that behind.
-/

namespace GeoRaft.Files

/-! ### Bytes at an offset -/

/-- What `write` does to a file; a gap in front of the offset reads as zeroes. -/
def writeAt (off : ℕ) (data file : List UInt8) : List UInt8 :=
  file.take off ++ List.replicate (off - file.length) 0 ++ data ++ file.drop (off + data.length)

def readAt (off n : ℕ) (file : List UInt8) : List UInt8 := (file.drop off).take n

/-- What `ftruncate` does to a file. -/
def truncate (n : ℕ) (file : List UInt8) : List UInt8 :=
  file.take n ++ List.replicate (n - file.length) 0

theorem writeAt_append (front data rest : List UInt8) :
    writeAt front.length data (front ++ rest) = front ++ data ++ rest.drop data.length := by
  have hgap : front.length - (front ++ rest).length = 0 := by
    rw [List.length_append]
    omega
  rw [writeAt, hgap, List.take_left, List.drop_append, List.drop_of_length_le (by omega),
    List.nil_append, Nat.add_sub_cancel_left, List.replicate_zero, List.append_nil]

theorem readAt_append (front data rest : List UInt8) :
    readAt front.length data.length (front ++ (data ++ rest)) = data := by
  rw [readAt, List.drop_left, List.take_left]

theorem truncate_append (front rest : List UInt8) : truncate front.length (front ++ rest) = front := by
  have hgap : front.length - (front ++ rest).length = 0 := by
    rw [List.length_append]
    omega
  rw [truncate, hgap, List.take_left, List.replicate_zero, List.append_nil]

/-! ### System calls -/

/-- A process with memory `M` and one descriptor for each file of `F`. -/
structure Sys (F M : Type) where
  files : F → List UInt8
  pos : F → ℕ
  mem : M
  /-- Whether the next calls fail, in their order; none does when this is over. -/
  faults : List Bool
  /-- The files as each call left them. -/
  past : List (F → List UInt8)

variable {F M : Type} [DecidableEq F]

namespace Sys

/-- The call after `k` more calls fails. -/
def fails (k : ℕ) (s : Sys F M) : Bool := s.faults.getD k false

/-- A call that fails. -/
def missed (s : Sys F M) : Sys F M :=
  { s with faults := s.faults.drop 1, past := s.past ++ [s.files] }

/-- A call that takes effect. -/
def done (s : Sys F M) (files : F → List UInt8) (pos : F → ℕ) : Sys F M :=
  { s with
    files := files
    pos := pos
    faults := s.faults.drop 1
    past := s.past ++ [files] }

def lseek (fd : F) (off : ℕ) (s : Sys F M) : ℤ × Sys F M :=
  if s.fails 0 then (-1, s.missed) else (off, s.done s.files (Function.update s.pos fd off))

def write (fd : F) (data : List UInt8) (s : Sys F M) : ℤ × Sys F M :=
  if s.fails 0 then (-1, s.missed)
  else
    (data.length, s.done (Function.update s.files fd (writeAt (s.pos fd) data (s.files fd)))
      (Function.update s.pos fd (s.pos fd + data.length)))

/-- The bytes that were read; none if the call fails. -/
def read (fd : F) (n : ℕ) (s : Sys F M) : List UInt8 × Sys F M :=
  if s.fails 0 then ([], s.missed)
  else
    let data := readAt (s.pos fd) n (s.files fd)
    (data, s.done s.files (Function.update s.pos fd (s.pos fd + data.length)))

/-- Calls whose result the callers do not look at do not fail here. -/
def fsync (s : Sys F M) : Sys F M := { s with past := s.past ++ [s.files] }

def ftruncate (fd : F) (n : ℕ) (s : Sys F M) : Sys F M :=
  { s with
    files := Function.update s.files fd (truncate n (s.files fd))
    past := s.past ++ [Function.update s.files fd (truncate n (s.files fd))] }

/-- A fresh process on these files, with every offset at the start. -/
def boot (mem : M) (files : F → List UInt8) : Sys F M where
  files := files
  pos := fun _ => 0
  mem := mem
  faults := []
  past := []

/-! ### Calls that fail and calls that do not -/

variable {s : Sys F M}

omit [DecidableEq F] in
theorem fails_done (files : F → List UInt8) (pos : F → ℕ) (k : ℕ) :
    (s.done files pos).fails k = s.fails (k + 1) := by
  simp [fails, done, List.getD_eq_getElem?_getD]

omit [DecidableEq F] in
theorem fails_of_reliable (h : s.faults = []) (k : ℕ) : s.fails k = false := by
  rw [fails, h, List.getD_nil]

theorem lseek_failed (h : s.fails 0 = true) (fd : F) (off : ℕ) : s.lseek fd off = (-1, s.missed) := by
  rw [lseek, h, if_pos rfl]

theorem lseek_done (h : s.fails 0 = false) (fd : F) (off : ℕ) :
    s.lseek fd off = ((off : ℤ), s.done s.files (Function.update s.pos fd off)) := by
  rw [lseek, h, if_neg Bool.false_ne_true]

theorem write_failed (h : s.fails 0 = true) (fd : F) (data : List UInt8) :
    s.write fd data = (-1, s.missed) := by
  rw [write, h, if_pos rfl]

theorem write_done (h : s.fails 0 = false) (fd : F) (data : List UInt8) :
    s.write fd data = ((data.length : ℤ),
      s.done (Function.update s.files fd (writeAt (s.pos fd) data (s.files fd)))
        (Function.update s.pos fd (s.pos fd + data.length))) := by
  rw [write, h, if_neg Bool.false_ne_true]

theorem read_done (h : s.fails 0 = false) (fd : F) (n : ℕ) :
    s.read fd n = (readAt (s.pos fd) n (s.files fd), s.done s.files
      (Function.update s.pos fd (s.pos fd + (readAt (s.pos fd) n (s.files fd)).length))) := by
  rw [read, h, if_neg Bool.false_ne_true]

end Sys

end GeoRaft.Files
