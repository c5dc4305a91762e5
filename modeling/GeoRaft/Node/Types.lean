import Mathlib.Data.Rat.Defs
import GeoRaft.Library.Word

/-!
The data of a node: log entries, the six remote calls, the storage interface
and the state `raft_node_t`.

Fields of C type `uint32_t` are natural numbers and fields of type `int` are
integers; where the program converts between the two, so do the definitions.
-/

namespace GeoRaft

open Word

/-! ### Log entries and remote calls -/

structure LogEntry where
  term : ℕ
  clientId : ℕ
  cmdSeqno : ℕ
  cmd : ℕ
  deriving DecidableEq, Repr, Inhabited

/-- `entries` holds the first `n_entries` elements of the array of the source. -/
structure AppendEntriesReq where
  term : ℕ
  leaderId : ℕ
  prevLogIdx : ℕ
  prevLogTerm : ℕ
  leaderCommit : ℤ
  entries : List LogEntry
  deriving DecidableEq, Repr

def AppendEntriesReq.nEntries (req : AppendEntriesReq) : ℕ := req.entries.length

structure AppendEntriesRes where
  term : ℕ
  newMatchIndex : ℕ
  success : ℕ
  deriving DecidableEq, Repr

structure RequestVoteReq where
  term : ℕ
  candidateId : ℕ
  lastLogIdx : ℕ
  lastLogTerm : ℕ
  deriving DecidableEq, Repr

structure RequestVoteRes where
  term : ℕ
  voteGranted : ℕ
  deriving DecidableEq, Repr

structure ProcReq where
  clientId : ℕ
  cmdSeqno : ℕ
  cmd : ℕ
  deriving DecidableEq, Repr

structure ProcRes where
  clientId : ℕ
  cmdSeqno : ℕ
  success : ℕ
  leaderHint : ℕ
  term : ℕ
  deriving DecidableEq, Repr

/-- The unpacked payload of a packet; the constructor is `header.code`. -/
inductive Rpc
  | appendEntriesReq (req : AppendEntriesReq)
  | appendEntriesRes (res : AppendEntriesRes)
  | requestVoteReq (req : RequestVoteReq)
  | requestVoteRes (res : RequestVoteRes)
  | procReq (req : ProcReq)
  | procRes (res : ProcRes)
  deriving DecidableEq, Repr

structure Pkt where
  dst : ℕ
  src : ℕ
  rpc : Rpc
  deriving DecidableEq, Repr

def maxAppendEntriesN : ℕ := 32

/-! ### Storage

`Storage σ` is the pair of dispatch tables `log_t` and `persistent_fields_t`
over a state `σ` of their contexts. A call that changes the context returns its
code and the new context. `read` returns the entry exactly when the source's
`read` returns `sizeof(log_entry_t)`. -/

inductive PersistentField
  | currentTerm
  | votedFor
  deriving DecidableEq, Repr

/-- The vote of a node that has not voted: `INT32_MAX`. -/
def pfNoVote : ℕ := 2147483647

class Storage (σ : Type) where
  get : PersistentField → σ → ℤ
  set : PersistentField → ℕ → σ → ℤ × σ
  length : σ → ℤ
  read : ℤ → σ → Option LogEntry
  write : ℤ → LogEntry → σ → ℤ × σ
  removeLastN : ℤ → σ → ℤ × σ

/-- What the state file and the two log files of a node hold. -/
structure Disk where
  currentTerm : ℕ
  votedFor : ℕ
  log : List LogEntry
  deriving DecidableEq, Repr

namespace Disk

/-- `persistent_fields_init` and `log_init` on files that do not exist yet. -/
def init : Disk := { currentTerm := 0, votedFor := pfNoVote, log := [] }

def get (f : PersistentField) (d : Disk) : ℤ :=
  match f with
  | .currentTerm => i32 d.currentTerm
  | .votedFor => i32 d.votedFor

def set (f : PersistentField) (v : ℕ) (d : Disk) : ℤ × Disk :=
  match f with
  | .currentTerm => (0, { d with currentTerm := u32 v })
  | .votedFor => (0, { d with votedFor := u32 v })

/-- `EOBND`. -/
def eobnd : ℤ := -51

def length (d : Disk) : ℤ := i32 d.log.length

def read (idx : ℤ) (d : Disk) : Option LogEntry :=
  if idx < 0 ∨ u32 idx ≥ d.log.length then none else d.log[u32 idx]?

def write (idx : ℤ) (entry : LogEntry) (d : Disk) : ℤ × Disk :=
  if idx < 0 ∨ u32 idx > d.log.length then (eobnd, d)
  else if u32 idx = d.log.length then (0, { d with log := d.log ++ [entry] })
  else (0, { d with log := d.log.set (u32 idx) entry })

def removeLastN (n : ℤ) (d : Disk) : ℤ × Disk :=
  if n ≤ 0 then (0, d)
  else
    let n := if u32 n > d.log.length then i32 d.log.length else n
    (n, { d with log := d.log.take (d.log.length - u32 n) })

instance : Storage Disk where
  get := get
  set := set
  length := length
  read := read
  write := write
  removeLastN := removeLastN

theorem get_currentTerm (d : Disk) : Storage.get .currentTerm d = i32 d.currentTerm := rfl

theorem get_votedFor (d : Disk) : Storage.get .votedFor d = i32 d.votedFor := rfl

theorem set_currentTerm (v : ℕ) (d : Disk) :
    (Storage.set .currentTerm v d).2 = { d with currentTerm := u32 v } := rfl

theorem set_votedFor (v : ℕ) (d : Disk) :
    (Storage.set .votedFor v d).2 = { d with votedFor := u32 v } := rfl

theorem storage_length (d : Disk) : Storage.length d = i32 d.log.length := rfl

theorem storage_read (idx : ℤ) (d : Disk) : Storage.read idx d = d.read idx := rfl

theorem storage_write (idx : ℤ) (entry : LogEntry) (d : Disk) :
    Storage.write idx entry d = d.write idx entry := rfl

theorem storage_removeLastN (n : ℤ) (d : Disk) : Storage.removeLastN n d = d.removeLastN n := rfl

end Disk

/-! ### Configuration -/

inductive Role
  | follower
  | candidate
  | leader
  deriving DecidableEq, Repr

inductive TimeoutScheme
  | timeout
  | accrual
  deriving DecidableEq, Repr

structure Config where
  id : ℕ
  numNodes : ℕ
  timeoutScheme : TimeoutScheme
  accrualThreshold : ℚ
  accrualWindowSize : ℕ
  accrualRampSize : ℕ
  timeoutLbMs : ℕ
  timeoutUbMs : ℕ
  crashAfterH : ℤ

/-- A node of a cluster of `n` with plain timeouts that never crashes on purpose. -/
def Config.plain (n id : ℕ) : Config where
  id := id
  numNodes := n
  timeoutScheme := .timeout
  accrualThreshold := 1
  accrualWindowSize := 4
  accrualRampSize := 2
  timeoutLbMs := 1000
  timeoutUbMs := 2000
  crashAfterH := -1

end GeoRaft
