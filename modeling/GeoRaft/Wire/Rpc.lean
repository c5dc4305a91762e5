import GeoRaft.Library.Octets
import GeoRaft.Node.Types

/-!
The wire format: how the six remote calls are put into a packet and taken out of
one.

A pack function gets a packet with anything in it and walks a pointer through
its payload; an unpack function reads at the same places. The fields of a call,
in their order, are therefore all there is to its format, apart from the least
length that each unpack function asks for.
-/

namespace GeoRaft

open Word Octets

def maxPayload : ℕ := 1024

structure PktHeader where
  dst : ℕ
  src : ℕ
  payloadN : ℕ
  code : ℕ
  deriving DecidableEq, Repr

/-- `pkt_t`, as it lies in memory. -/
structure WirePkt where
  header : PktHeader
  payload : List UInt8
  size : payload.length = maxPayload

/-- A packet before anything is written to it. -/
def WirePkt.blank : WirePkt where
  header := ⟨0, 0, 0, 0⟩
  payload := List.replicate maxPayload 0
  size := List.length_replicate

/-- The codes a node knows how to interpret. -/
inductive RpcCode
  | callAppendEnt
  | respAppendEnt
  | callReqVote
  | respReqVote
  | callProc
  | respProc
  deriving DecidableEq, Repr

def RpcCode.val : RpcCode → ℕ
  | callAppendEnt => 0
  | respAppendEnt => 1
  | callReqVote => 2
  | respReqVote => 3
  | callProc => 4
  | respProc => 5

def RpcCode.ofVal : ℕ → Option RpcCode
  | 0 => some callAppendEnt
  | 1 => some respAppendEnt
  | 2 => some callReqVote
  | 3 => some respReqVote
  | 4 => some callProc
  | 5 => some respProc
  | _ => none

@[simp] theorem RpcCode.ofVal_val (c : RpcCode) : ofVal c.val = some c := by cases c <;> rfl

theorem RpcCode.val_of_ofVal {n : ℕ} {c : RpcCode} (h : ofVal n = some c) : n = c.val := by
  unfold ofVal at h
  split at h
  all_goals cases h
  all_goals rfl

/-! ### Packing -/

/-- The payload and its length after a walk of the pointer from the start. -/
def WirePkt.fill (pkt : WirePkt) (dst src : ℕ) (code : RpcCode) (fields : List Field) : WirePkt where
  header := { dst := dst, src := src, payloadN := (writeFields 0 pkt.payload fields).1, code := code.val }
  payload := (writeFields 0 pkt.payload fields).2
  size := (writeFields_length ..).trans pkt.size

/-- What the pack functions for messages of a fixed size do. -/
def rpcPackFields (pkt : WirePkt) (dst src : ℕ) (code : RpcCode) (fields : List Field) :
    ℤ × WirePkt :=
  let pkt := pkt.fill dst src code fields
  (if pkt.header.payloadN > maxPayload then -1 else 0, pkt)

def LogEntry.fields (entry : LogEntry) : List Field :=
  [.word entry.term, .word entry.clientId, .word entry.cmdSeqno, .word entry.cmd]

def logEntryPack (p : ℕ) (buf : List UInt8) (entry : LogEntry) : ℕ × List UInt8 :=
  writeFields p buf entry.fields

def logEntryPackedSize : ℕ := 16

/-- The loop over the entries of a request. -/
def packEntries (p : ℕ) (buf : List UInt8) : List LogEntry → ℕ × List UInt8
  | [] => (p, buf)
  | entry :: entries =>
    let w := logEntryPack p buf entry
    packEntries w.1 w.2 entries

/-- The fields of a request up to the number of its entries. -/
def AppendEntriesReq.head (req : AppendEntriesReq) : List Field :=
  [.word req.term, .word req.leaderId, .word req.prevLogIdx, .word req.prevLogTerm,
    .word (u32 req.leaderCommit), .word req.nEntries]

theorem packEntries_eq (p : ℕ) (buf : List UInt8) (entries : List LogEntry) :
    packEntries p buf entries = writeFields p buf (entries.flatMap LogEntry.fields) := by
  induction entries generalizing p buf with
  | nil => rfl
  | cons entry entries ih =>
      rw [packEntries, ih, List.flatMap_cons, writeFields_append, logEntryPack]

theorem packEntries_length (p : ℕ) (buf : List UInt8) (entries : List LogEntry) :
    (packEntries p buf entries).2.length = buf.length := by
  rw [packEntries_eq, writeFields_length]

/-- `payload_n` is set only behind the check on the number of entries. -/
def rpcPackAppendEntriesReq (pkt : WirePkt) (dst src : ℕ) (req : AppendEntriesReq) : ℤ × WirePkt :=
  let head := pkt.fill dst src .callAppendEnt req.head
  if req.nEntries > maxAppendEntriesN then
    (-1, { head with header := { head.header with payloadN := pkt.header.payloadN } })
  else
    let w := packEntries head.header.payloadN head.payload req.entries
    (if w.1 > maxPayload then -1 else 0,
      { header := { head.header with payloadN := w.1 }
        payload := w.2
        size := (packEntries_length ..).trans head.size })

def AppendEntriesRes.fields (res : AppendEntriesRes) : List Field :=
  [.word res.term, .word res.newMatchIndex, .byte res.success]

def rpcPackAppendEntriesRes (pkt : WirePkt) (dst src : ℕ) (res : AppendEntriesRes) : ℤ × WirePkt :=
  rpcPackFields pkt dst src .respAppendEnt res.fields

def RequestVoteReq.fields (req : RequestVoteReq) : List Field :=
  [.word req.term, .word req.candidateId, .word req.lastLogIdx, .word req.lastLogTerm]

def rpcPackRequestVoteReq (pkt : WirePkt) (dst src : ℕ) (req : RequestVoteReq) : ℤ × WirePkt :=
  rpcPackFields pkt dst src .callReqVote req.fields

def RequestVoteRes.fields (res : RequestVoteRes) : List Field :=
  [.word res.term, .byte res.voteGranted]

def rpcPackRequestVoteRes (pkt : WirePkt) (dst src : ℕ) (res : RequestVoteRes) : ℤ × WirePkt :=
  rpcPackFields pkt dst src .respReqVote res.fields

def ProcReq.fields (req : ProcReq) : List Field :=
  [.word req.clientId, .word req.cmdSeqno, .word req.cmd]

def rpcPackProcReq (pkt : WirePkt) (dst src : ℕ) (req : ProcReq) : ℤ × WirePkt :=
  rpcPackFields pkt dst src .callProc req.fields

def ProcRes.fields (res : ProcRes) : List Field :=
  [.word res.clientId, .word res.cmdSeqno, .byte res.success, .word res.leaderHint, .word res.term]

def rpcPackProcRes (pkt : WirePkt) (dst src : ℕ) (res : ProcRes) : ℤ × WirePkt :=
  rpcPackFields pkt dst src .respProc res.fields

/-! ### Unpacking -/

def logEntryUnpack (p : ℕ) (buf : List UInt8) : LogEntry where
  term := readU32Be p buf
  clientId := readU32Be (p + 4) buf
  cmdSeqno := readU32Be (p + 8) buf
  cmd := readU32Be (p + 12) buf

/-- The loop that reads `n` entries from the pointer on. -/
def unpackEntries (p : ℕ) (buf : List UInt8) : ℕ → List LogEntry
  | 0 => []
  | n + 1 => logEntryUnpack p buf :: unpackEntries (p + 16) buf n

def rpcUnpackAppendEntriesReq (pkt : WirePkt) : Option AppendEntriesReq :=
  let p := pkt.payload
  if pkt.header.payloadN < 24 then none
  else
    let nEntries := readU32Be 20 p
    if nEntries > maxAppendEntriesN then none
    else
      let expectedSize := 24 + nEntries * logEntryPackedSize
      if pkt.header.payloadN < expectedSize then none
      else
        some {
          term := readU32Be 0 p
          leaderId := readU32Be 4 p
          prevLogIdx := readU32Be 8 p
          prevLogTerm := readU32Be 12 p
          leaderCommit := i32 (readU32Be 16 p)
          entries := unpackEntries 24 p nEntries }

def rpcUnpackAppendEntriesRes (pkt : WirePkt) : Option AppendEntriesRes :=
  let p := pkt.payload
  let expectedSize := 9
  if pkt.header.payloadN < expectedSize then none
  else some { term := readU32Be 0 p, newMatchIndex := readU32Be 4 p, success := readU8 8 p }

def rpcUnpackRequestVoteReq (pkt : WirePkt) : Option RequestVoteReq :=
  let p := pkt.payload
  let expectedSize := 16
  if pkt.header.payloadN < expectedSize then none
  else
    some {
      term := readU32Be 0 p
      candidateId := readU32Be 4 p
      lastLogIdx := readU32Be 8 p
      lastLogTerm := readU32Be 12 p }

def rpcUnpackRequestVoteRes (pkt : WirePkt) : Option RequestVoteRes :=
  let p := pkt.payload
  let expectedSize := 5
  if pkt.header.payloadN < expectedSize then none
  else some { term := readU32Be 0 p, voteGranted := readU8 4 p }

def rpcUnpackProcReq (pkt : WirePkt) : Option ProcReq :=
  let p := pkt.payload
  let expectedSize := 12
  if pkt.header.payloadN < expectedSize then none
  else some { clientId := readU32Be 0 p, cmdSeqno := readU32Be 4 p, cmd := readU32Be 8 p }

/-- The least length asked for leaves out the last field. -/
def rpcUnpackProcRes (pkt : WirePkt) : Option ProcRes :=
  let p := pkt.payload
  let expectedSize := 13
  if pkt.header.payloadN < expectedSize then none
  else
    some {
      clientId := readU32Be 0 p
      cmdSeqno := readU32Be 4 p
      success := readU8 8 p
      leaderHint := readU32Be 9 p
      term := readU32Be 13 p }

/-! ### The six formats together -/

namespace Rpc

def code : Rpc → RpcCode
  | appendEntriesReq _ => .callAppendEnt
  | appendEntriesRes _ => .respAppendEnt
  | requestVoteReq _ => .callReqVote
  | requestVoteRes _ => .respReqVote
  | procReq _ => .callProc
  | procRes _ => .respProc

/-- All fields of a message, in the order of the wire. -/
def fields : Rpc → List Field
  | appendEntriesReq req => req.head ++ req.entries.flatMap LogEntry.fields
  | appendEntriesRes res => res.fields
  | requestVoteReq req => req.fields
  | requestVoteRes res => res.fields
  | procReq req => req.fields
  | procRes res => res.fields

def nEntries : Rpc → ℕ
  | appendEntriesReq req => req.nEntries
  | _ => 0

/-- The pack function of the message. -/
def pack (pkt : WirePkt) (dst src : ℕ) : Rpc → ℤ × WirePkt
  | appendEntriesReq req => rpcPackAppendEntriesReq pkt dst src req
  | appendEntriesRes res => rpcPackAppendEntriesRes pkt dst src res
  | requestVoteReq req => rpcPackRequestVoteReq pkt dst src req
  | requestVoteRes res => rpcPackRequestVoteRes pkt dst src res
  | procReq req => rpcPackProcReq pkt dst src req
  | procRes res => rpcPackProcRes pkt dst src res

/-- The unpack function that goes with a code. -/
def unpack (pkt : WirePkt) : RpcCode → Option Rpc
  | .callAppendEnt => (rpcUnpackAppendEntriesReq pkt).map appendEntriesReq
  | .respAppendEnt => (rpcUnpackAppendEntriesRes pkt).map appendEntriesRes
  | .callReqVote => (rpcUnpackRequestVoteReq pkt).map requestVoteReq
  | .respReqVote => (rpcUnpackRequestVoteRes pkt).map requestVoteRes
  | .callProc => (rpcUnpackProcReq pkt).map procReq
  | .respProc => (rpcUnpackProcRes pkt).map procRes

theorem code_of_unpack {pkt : WirePkt} {c : RpcCode} {rpc : Rpc} (h : unpack pkt c = some rpc) :
    c = rpc.code := by
  cases c <;> obtain ⟨_, -, rfl⟩ := Option.map_eq_some_iff.mp h <;> rfl

end Rpc

/-! ### What the types of C hold -/

def LogEntry.Fits (entry : LogEntry) : Prop :=
  entry.term < 2 ^ 32 ∧ entry.clientId < 2 ^ 32 ∧ entry.cmdSeqno < 2 ^ 32 ∧ entry.cmd < 2 ^ 32

/-- Words are below `2 ^ 32`, flag bytes below `2 ^ 8` and `leader_commit` is an `int`. -/
def Rpc.Fits : Rpc → Prop
  | appendEntriesReq req =>
    req.term < 2 ^ 32 ∧ req.leaderId < 2 ^ 32 ∧ req.prevLogIdx < 2 ^ 32 ∧ req.prevLogTerm < 2 ^ 32 ∧
      (-2 ^ 31 ≤ req.leaderCommit ∧ req.leaderCommit < 2 ^ 31) ∧ ∀ entry ∈ req.entries, entry.Fits
  | appendEntriesRes res => res.term < 2 ^ 32 ∧ res.newMatchIndex < 2 ^ 32 ∧ res.success < 2 ^ 8
  | requestVoteReq req =>
    req.term < 2 ^ 32 ∧ req.candidateId < 2 ^ 32 ∧ req.lastLogIdx < 2 ^ 32 ∧ req.lastLogTerm < 2 ^ 32
  | requestVoteRes res => res.term < 2 ^ 32 ∧ res.voteGranted < 2 ^ 8
  | procReq req => req.clientId < 2 ^ 32 ∧ req.cmdSeqno < 2 ^ 32 ∧ req.cmd < 2 ^ 32
  | procRes res =>
    res.clientId < 2 ^ 32 ∧ res.cmdSeqno < 2 ^ 32 ∧ res.success < 2 ^ 8 ∧ res.leaderHint < 2 ^ 32 ∧
      res.term < 2 ^ 32

end GeoRaft
