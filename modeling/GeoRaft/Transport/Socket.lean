import Mathlib.Data.List.Basic

/-!
The socket transport: the loops over one packet, and the three tables of descriptors.

A process runs its two functions one after the other, so what it does to its tables is a
sequence of a few events: it accepts or opens a connection, it has read a whole packet,
or it gives a connection up.
-/

namespace GeoRaft

/-- `MAX_CONNECTIONS`. -/
def maxConnections : ℕ := 1024

/-- `sizeof(pkt_t)`: a header of four words and the payload. -/
def sizeofPkt : ℕ := 1040

/-- The bytes of a `pkt_t`. -/
structure RawPkt where
  bytes : List UInt8
  size : bytes.length = sizeofPkt

/-! ### The loops over one packet -/

/-- What a call of `send` comes to. With `EAGAIN` it is followed by a `select`, which
says within 10 ms that the socket can be written to, or does not. -/
inductive SendResult
  | sent (n : ℕ)
  | interrupted
  | again (writable : Bool)
  | failed
  deriving DecidableEq, Repr

/-- How the loop goes on. -/
inductive SendNext
  | loop (totalSent : ℕ)
  | done
  | errClose
  deriving DecidableEq, Repr

/-- The body of the loop of `socket_send`. -/
def sendBody (totalSent : ℕ) : SendResult → SendNext
  | .sent n =>
    if n > 0 then if totalSent + n < sizeofPkt then .loop (totalSent + n) else .done
    else .errClose
  | .interrupted => .loop totalSent
  | .again writable => if writable then .loop totalSent else .errClose
  | .failed => .errClose

/-- What a call of `read` comes to, where 0 bytes are the end of the stream. With
`EAGAIN` in the middle of a packet it is followed by a look at the clock. -/
inductive ReadResult
  | got (n : ℕ)
  | interrupted
  | again (late : Bool)
  | failed
  deriving DecidableEq, Repr

inductive ReadNext
  | loop (totalRead : ℕ)
  | packet
  | leave
  | errRecv
  deriving DecidableEq, Repr

/-- The body of the loop of `socket_receive`. -/
def readBody (totalRead : ℕ) : ReadResult → ReadNext
  | .got n =>
    if n > 0 then if totalRead + n < sizeofPkt then .loop (totalRead + n) else .packet
    else .errRecv
  | .interrupted => .loop totalRead
  | .again late =>
    if totalRead > 0 then if late then .errRecv else .loop totalRead else .leave
  | .failed => .errRecv

/-! ### The tables -/

/-- `socket_context_t`, with `none` for -1. `activeFds` holds the first `num_active`
elements of its array. -/
structure SocketContext where
  numNodes : ℕ
  peerFds : List (Option ℕ)
  clientFds : List (Option ℕ)
  activeFds : List ℕ
  deriving DecidableEq, Repr

namespace SocketContext

/-- `transport_socket_init`. -/
def init (numNodes : ℕ) : SocketContext where
  numNodes := numNodes
  peerFds := List.replicate numNodes none
  clientFds := List.replicate maxConnections none
  activeFds := []

/-- The last element moves to the place of the one that is removed. -/
def removeActiveFd (sctx : SocketContext) (fd : ℕ) : SocketContext :=
  match sctx.activeFds.findIdx? (· == fd) with
  | none => sctx
  | some i =>
    { sctx with
      activeFds := (sctx.activeFds.set i (sctx.activeFds.getLast?.getD fd)).dropLast }

/-- The place for the connection with `id`: that of the peer, or one that clients share
whose ids agree modulo the size of the table. -/
def slot (sctx : SocketContext) (id : ℕ) : Option ℕ :=
  if id < sctx.numNodes then sctx.peerFds.getD id none
  else sctx.clientFds.getD (id % maxConnections) none

def setSlot (sctx : SocketContext) (id : ℕ) (fd : Option ℕ) : SocketContext :=
  if id < sctx.numNodes then { sctx with peerFds := sctx.peerFds.set id fd }
  else { sctx with clientFds := sctx.clientFds.set (id % maxConnections) fd }

/-- A new connection is watched if there is room. -/
def watch (sctx : SocketContext) (fd : ℕ) : SocketContext :=
  if sctx.activeFds.length < maxConnections then
    { sctx with activeFds := sctx.activeFds ++ [fd] }
  else sctx

/-- The slots that hold a descriptor, where `err_recv` looks for it. -/
def forget (sctx : SocketContext) (fd : ℕ) : SocketContext :=
  { sctx with
    peerFds := sctx.peerFds.map fun x => if x = some fd then none else x
    clientFds := sctx.clientFds.map fun x => if x = some fd then none else x }

end SocketContext

/-- A process: its tables, and the descriptors it has open. -/
structure Sockets where
  sctx : SocketContext
  openFds : List ℕ
  deriving DecidableEq, Repr

namespace Sockets

def close (s : Sockets) (fd : ℕ) : Sockets := { s with openFds := s.openFds.filter (· ≠ fd) }

def opened (s : Sockets) (fd : ℕ) : Sockets := { s with openFds := fd :: s.openFds }

/-- The body of the loops around `accept`. -/
def accept (s : Sockets) (fd : ℕ) : Sockets :=
  let s := s.opened fd
  if s.sctx.activeFds.length < maxConnections then { s with sctx := s.sctx.watch fd }
  else s.close fd

/-- `connect_to_peer`, when `socket` has returned `fd` and `connect` has not failed. -/
def connectToPeer (s : Sockets) (nodeId fd : ℕ) : Sockets :=
  let s := s.opened fd
  { s with sctx := (s.sctx.setSlot nodeId (some fd)).watch fd }

/-- From the point where `socket_receive` has read a whole packet from `fd`. -/
def register (s : Sockets) (fd src : ℕ) : Sockets :=
  let s :=
    match s.sctx.slot src with
    | some oldFd =>
      if oldFd ≠ fd then { s.close oldFd with sctx := s.sctx.removeActiveFd oldFd } else s
    | none => s
  { s with sctx := s.sctx.setSlot src (some fd) }

/-- `err_recv`. -/
def errRecv (s : Sockets) (fd : ℕ) : Sockets :=
  { s.close fd with sctx := (s.sctx.removeActiveFd fd).forget fd }

/-- `err_close`, for the descriptor that `socket_send` has taken from the tables. -/
def errClose (s : Sockets) (dst : ℕ) : Sockets :=
  match s.sctx.slot dst with
  | none => s
  | some fd => { s.close fd with sctx := (s.sctx.removeActiveFd fd).setSlot dst none }

end Sockets

/-- What happens to the tables of a process. -/
inductive SocketEvent
  /-- `accept` has returned a descriptor. -/
  | accepted (fd : ℕ)
  /-- `socket_send` has opened a connection. -/
  | connected (nodeId fd : ℕ)
  /-- `socket_receive` has read a packet with this `header.src`. -/
  | received (fd src : ℕ)
  | readFailed (fd : ℕ)
  | sendFailed (dst : ℕ)
  deriving DecidableEq, Repr

namespace SocketEvent

def apply (s : Sockets) : SocketEvent → Sockets
  | accepted fd => s.accept fd
  | connected nodeId fd => s.connectToPeer nodeId fd
  | received fd src => s.register fd src
  | readFailed fd => s.errRecv fd
  | sendFailed dst => s.errClose dst

/-- The system returns a descriptor that is not in use, `socket_send` opens a connection
to a peer it has none to, and `socket_receive` reads from those that are watched. -/
def Possible (s : Sockets) : SocketEvent → Prop
  | accepted fd => fd ∉ s.openFds
  | connected nodeId fd =>
    nodeId < s.sctx.numNodes ∧ s.sctx.slot nodeId = none ∧ fd ∉ s.openFds
  | received fd _ => fd ∈ s.sctx.activeFds
  | readFailed fd => fd ∈ s.sctx.activeFds
  | sendFailed dst => s.sctx.slot dst ≠ none

instance (s : Sockets) (e : SocketEvent) : Decidable (e.Possible s) := by
  cases e <;> unfold Possible <;> infer_instance

end SocketEvent

end GeoRaft
