import GeoRaft.Node.Effects
import GeoRaft.Node.Quiet

/-!
The life of one node: its processes, one after the other, on one disk.

A process gets packets and timeouts, whatever they are, and carries the effects
of each handler out. It can be stopped before the handler's first effect, between
two of them or after the last one, and then a new process starts from the disk.

A response that makes a leader write outside its tables is among the packets, and
is ignored, which the code does not do: about a life with such a response nothing
is said but what holds as long as the process goes on as it was.
-/

namespace GeoRaft

open Word

inductive Input
  | packet (env : Env) (pkt : Pkt)
  | timeout (env : Env)
  deriving DecidableEq, Repr

/-- The candidate of a request for a vote. -/
def Rpc.candidateId : Rpc → ℕ
  | .requestVoteReq req => req.candidateId
  | _ => 0

/-- The fields of a packet are 32 bits wide; these are the two that are stored. -/
def Input.WellFormed : Input → Prop
  | .packet _ pkt => pkt.rpc.term < 2 ^ 32 ∧ pkt.rpc.candidateId < 2 ^ 32
  | .timeout _ => True

instance : ∀ input : Input, Decidable input.WellFormed
  | .packet _ pkt => inferInstanceAs (Decidable (pkt.rpc.term < 2 ^ 32 ∧ _))
  | .timeout _ => inferInstanceAs (Decidable True)

/-- The node is sent a response that makes it write outside its tables. -/
def Input.Strays (node : Node Disk) : Input → Prop
  | .packet _ pkt => pkt.dst = node.config.id ∧ node.StrangeResponse pkt.src pkt.rpc
  | .timeout _ => False

instance (node : Node Disk) : ∀ input : Input, Decidable (input.Strays node)
  | .packet _ pkt => inferInstanceAs (Decidable (pkt.dst = node.config.id ∧ _))
  | .timeout _ => inferInstanceAs (Decidable False)

/-- One turn of the loop of `raft_run`. -/
def Node.handle (node : Node Disk) : Input → Node Disk
  | .packet env pkt => if pkt.dst ≠ node.config.id then node else node.raftHandleRpc env pkt
  | .timeout env => node.raftHandleTimeout env

/-- The event an effect leaves behind. -/
def Effect.event {σ : Type} : Effect σ → Option Event
  | .store _ event => event
  | .note event => some event
  | .send _ | .exit => none

/-- A packet, with the role and the term of the node that got it. -/
structure Heard where
  role : Role
  term : ℕ
  pkt : Pkt
  deriving DecidableEq, Repr

/-- A node between two inputs, and what it went through. -/
structure Life where
  node : Node Disk
  events : List Event
  heard : List Heard

inductive Move
  | run (input : Input)
  /-- The process ends when `k` effects of the handler are carried out. -/
  | crash (input : Input) (k : ℕ)
  deriving DecidableEq, Repr

def Move.input : Move → Input
  | .run input => input
  | .crash input _ => input

namespace Life

def start (config : Config) : Life := ⟨raftCreate config .init, [], []⟩

def hearing (l : Life) : Input → Option Heard
  | .packet _ pkt =>
    if pkt.dst ≠ l.node.config.id then none
    else some ⟨l.node.role, u32 (l.node.get .currentTerm), pkt⟩
  | .timeout _ => none

/-- The effects that a move carries out. -/
def effects (l : Life) : Move → List (Effect Disk)
  | .run input => (l.node.handle input).script
  | .crash input k => (l.node.handle input).script.take k

def move (config : Config) (l : Life) (m : Move) : Life where
  node :=
    match m with
    | .run input =>
      let node := l.node.handle input
      if .exit ∈ node.script then raftCreate config node.store else { node with script := [] }
    | .crash _ _ => raftCreate config (storeAfter l.node.store (l.effects m))
  events := l.events ++ (l.effects m).filterMap Effect.event
  heard := l.heard ++ (l.hearing m.input).toList

/-- The handler keeps to its tables. -/
def InTables (l : Life) (m : Move) : Prop := ¬m.input.Strays l.node

instance (l : Life) (m : Move) : Decidable (l.InTables m) :=
  inferInstanceAs (Decidable (¬_))

end Life

/-- The lives all of whose moves satisfy `ok`. -/
inductive Lives (config : Config) (ok : Life → Move → Prop) : Life → Prop
  | start : Lives config ok (.start config)
  | move {l : Life} {m : Move} (hl : Lives config ok l) (hm : m.input.WellFormed) (hok : ok l m) :
      Lives config ok (l.move config m)

namespace Lives

variable {config : Config} {ok : Life → Move → Prop} {l : Life}

theorem invariant {P : Life → Prop} (h0 : P (.start config))
    (hmove : ∀ {l m}, Lives config ok l → P l → m.input.WellFormed → ok l m → P (l.move config m))
    (hl : Lives config ok l) : P l := by
  induction hl with
  | start => exact h0
  | move hl hm hok ih => exact hmove hl ih hm hok

/-- Between two inputs nothing is left to do. -/
theorem idle (hl : Lives config ok l) : l.node.script = [] := by
  cases hl with
  | start => rfl
  | @move l m hl hm hok =>
      cases m with
      | run input =>
          unfold Life.move
          dsimp only
          split <;> rfl
      | crash input k => rfl

/-- Make a list of moves as long as `ok` allows it. -/
def moves (config : Config) (ok : Life → Move → Prop) [∀ l m, Decidable (ok l m)] :
    Life → List Move → Option Life
  | l, [] => some l
  | l, m :: ms =>
    if m.input.WellFormed ∧ ok l m then moves config ok (l.move config m) ms else none

theorem of_moves [∀ l m, Decidable (ok l m)] {ms : List Move} {l' : Life} (hl : Lives config ok l)
    (h : moves config ok l ms = some l') : Lives config ok l' := by
  induction ms generalizing l with
  | nil => exact (Option.some.inj h) ▸ hl
  | cons m ms ih =>
      rw [moves] at h
      split at h
      · rename_i hcond
        exact ih (.move hl hcond.1 hcond.2) h
      · cases h

/-- A life with a property, by making its moves. -/
theorem exists_of_moves [∀ l m, Decidable (ok l m)] {P : Life → Prop} [DecidablePred P]
    (ms : List Move)
    (h : (moves config ok (.start config) ms).any (fun l => decide (P l)) = true) :
    ∃ l, Lives config ok l ∧ P l := by
  obtain ⟨l, hl, hP⟩ := (Option.any_eq_true _ _).mp h
  exact ⟨l, of_moves .start hl, of_decide_eq_true hP⟩

end Lives

end GeoRaft
