import Mathlib.Data.List.Induction
import Mathlib.Logic.Relation
import GeoRaft.Node.Raft

/-!
The parts of a handler that have nothing to do with elections.

A quiet step changes neither the persisted term nor the persisted vote, nor what
the node knows of its own candidacy; it hands over no request for a vote and no
vote. Most of the code of a node is quiet, whatever it does to the log.
-/

namespace GeoRaft

open Word

/-- The term of a call between nodes. -/
def Rpc.term : Rpc → ℕ
  | .appendEntriesReq req => req.term
  | .appendEntriesRes res => res.term
  | .requestVoteReq req => req.term
  | .requestVoteRes res => res.term
  | .procReq _ => 0
  | .procRes _ => 0

def Rpc.Electoral : Rpc → Prop
  | .requestVoteReq _ => True
  | .requestVoteRes res => res.voteGranted ≠ 0
  | _ => False

def Event.Electoral : Event → Prop
  | .becameFollower _ | .vote _ _ | .becameLeader _ => True
  | _ => False

namespace Node

inductive QuietStep : Node Disk → Node Disk → Prop
  | mem {n n' : Node Disk} (hs : n'.script = n.script) (hd : n'.store = n.store)
      (hc : n'.config = n.config) (hr : n'.role = n.role)
      (hv : n'.votesReceived = n.votesReceived) : QuietStep n n'
  | put {n : Node Disk} {d : Disk} {event : Option Event}
      (ht : d.currentTerm = n.store.currentTerm) (hv : d.votedFor = n.store.votedFor)
      (he : ∀ e, event = some e → ¬e.Electoral) : QuietStep n (n.put d event)
  | send {n : Node Disk} {dst : ℕ} {rpc : Rpc} (ht : rpc.term ≤ n.store.currentTerm)
      (he : ¬rpc.Electoral) : QuietStep n (n.send dst rpc)
  | note {n : Node Disk} {event : Event} (he : ¬event.Electoral) : QuietStep n (n.note event)
  | exit {n : Node Disk} : QuietStep n { n with script := n.script ++ [.exit] }

def Quiet : Node Disk → Node Disk → Prop := Relation.ReflTransGen QuietStep

variable {n n' : Node Disk}

theorem QuietStep.quiet (h : QuietStep n n') : Quiet n n' := .single h

/-- A change of the memory alone, for a record update that leaves the fields in question. -/
theorem Quiet.mem (hs : n'.script = n.script) (hd : n'.store = n.store)
    (hc : n'.config = n.config) (hr : n'.role = n.role)
    (hv : n'.votesReceived = n.votesReceived) : Quiet n n' :=
  (QuietStep.mem hs hd hc hr hv).quiet

theorem Quiet.refl (n : Node Disk) : Quiet n n := Relation.ReflTransGen.refl

theorem Quiet.trans {n n' n'' : Node Disk} (h : Quiet n n') (h' : Quiet n' n'') : Quiet n n'' :=
  Relation.ReflTransGen.trans h h'

theorem Quiet.currentTerm (h : Quiet n n') : n'.store.currentTerm = n.store.currentTerm := by
  induction h with
  | refl => rfl
  | tail _ hs ih =>
      refine Eq.trans ?_ ih
      cases hs with
      | mem _ hd => rw [hd]
      | put ht => exact ht
      | send => rfl
      | note => rfl
      | exit => rfl

theorem Quiet.votedFor (h : Quiet n n') : n'.store.votedFor = n.store.votedFor := by
  induction h with
  | refl => rfl
  | tail _ hs ih =>
      refine Eq.trans ?_ ih
      cases hs with
      | mem _ hd => rw [hd]
      | put _ hv => exact hv
      | send => rfl
      | note => rfl
      | exit => rfl

theorem Quiet.role (h : Quiet n n') : n'.role = n.role := by
  induction h with
  | refl => rfl
  | tail _ hs ih =>
      refine Eq.trans ?_ ih
      cases hs with
      | mem _ _ _ hr => exact hr
      | put => rfl
      | send => rfl
      | note => rfl
      | exit => rfl

theorem Quiet.note {event : Event} (he : ¬event.Electoral) : Quiet n (n.note event) :=
  (QuietStep.note he).quiet

theorem Quiet.appendEntriesReq {dst : ℕ} {req : AppendEntriesReq}
    (h : req.term ≤ n.store.currentTerm) : Quiet n (n.send dst (.appendEntriesReq req)) := by
  refine (QuietStep.send ?_ ?_).quiet
  · exact h
  · exact id

theorem Quiet.appendEntriesRes {dst : ℕ} {res : AppendEntriesRes}
    (h : res.term ≤ n.store.currentTerm) : Quiet n (n.send dst (.appendEntriesRes res)) := by
  refine (QuietStep.send ?_ ?_).quiet
  · exact h
  · exact id

theorem Quiet.procRes {dst : ℕ} {res : ProcRes} : Quiet n (n.send dst (.procRes res)) :=
  (QuietStep.send (Nat.zero_le _) id).quiet

theorem quiet_foldl {α : Type} (f : Node Disk → α → Node Disk) (l : List α)
    (h : ∀ m a, Quiet n m → Quiet m (f m a)) : Quiet n (l.foldl f n) := by
  induction l using List.reverseRecOn with
  | nil => exact .refl n
  | append_singleton l a ih =>
      rw [List.foldl_append]
      exact ih.trans (h _ a ih)

theorem forOthers_quiet {body : Node Disk → ℕ → Node Disk}
    (h : ∀ m i, Quiet n m → Quiet m (body m i)) : Quiet n (n.forOthers body) := by
  refine quiet_foldl _ _ fun m i hm => ?_
  split
  · exact .refl m
  · exact h m i hm

/-! ### The functions of the node -/

/-- What a node takes for its term is at most the term it has stored. -/
theorem get_currentTerm_le (n : Node Disk) : u32 (n.get .currentTerm) ≤ n.store.currentTerm := by
  rw [get_currentTerm, u32_i32]
  exact u32_le _

theorem logWrite_quiet (n : Node Disk) (idx : ℤ) (entry : LogEntry) {event : Option Event}
    (he : ∀ e, event = some e → ¬e.Electoral) : Quiet n (n.logWrite idx entry event) := by
  refine (QuietStep.put ?_ ?_ he).quiet
  all_goals
    simp only [Storage.write, Disk.write]
    split
    · rfl
    · split <;> rfl

theorem logRemoveLastN_quiet (n : Node Disk) (k : ℤ) : Quiet n (n.logRemoveLastN k) := by
  refine (QuietStep.put ?_ ?_ (by simp)).quiet
  all_goals
    simp only [Storage.removeLastN, Disk.removeLastN]
    split <;> rfl

theorem appendEntriesReqTo_term (n : Node Disk) (term i : ℕ) (entries : List LogEntry) :
    (n.appendEntriesReqTo term i entries).term = term := rfl

theorem sendHeartbeats_quiet (n : Node Disk) : Quiet n n.sendHeartbeats := by
  unfold sendHeartbeats
  split
  · exact .refl n
  · refine forOthers_quiet fun m i hm => Quiet.appendEntriesReq ?_
    rw [appendEntriesReqTo_term, hm.currentTerm]
    exact n.get_currentTerm_le

theorem broadcastAppendEntries_quiet (n : Node Disk) : Quiet n n.broadcastAppendEntries := by
  unfold broadcastAppendEntries
  split
  · exact .refl n
  · refine forOthers_quiet fun m i hm => Quiet.appendEntriesReq ?_
    rw [appendEntriesReqTo_term, hm.currentTerm]
    exact n.get_currentTerm_le

theorem replyOutstanding_quiet (n : Node Disk) (idx : ℤ) (entry : LogEntry) :
    Quiet n (n.replyOutstanding idx entry) := by
  unfold replyOutstanding
  split
  · exact .refl n
  · exact (Quiet.note id).trans (Quiet.procRes.trans (.mem rfl rfl rfl rfl rfl))

theorem applyNext_quiet (n : Node Disk) : Quiet n n.applyNext := by
  have hlast : Quiet n { n with lastApplied := n.lastApplied + 1 } := .mem rfl rfl rfl rfl rfl
  have happly : ∀ entry, Quiet n
      (({ n with lastApplied := n.lastApplied + 1 } : Node Disk).note
        (.apply (n.lastApplied + 1) entry)) :=
    fun _ => hlast.trans (.note id)
  unfold applyNext
  dsimp only
  split
  · exact hlast
  · split
    · exact (happly _).trans (replyOutstanding_quiet _ _ _)
    · exact happly _

theorem applyLoop_quiet (fuel : ℕ) (n : Node Disk) : Quiet n (applyLoop fuel n) := by
  induction fuel generalizing n with
  | zero => exact .refl n
  | succ fuel ih =>
      unfold applyLoop
      split
      · exact n.applyNext_quiet.trans (ih _)
      · exact .refl n

theorem applyToStateMachine_quiet (n : Node Disk) : Quiet n n.applyToStateMachine :=
  applyLoop_quiet _ n

theorem storeEntries_quiet (newIdx i : ℕ) (logLen : ℤ) (entries : List LogEntry) (n : Node Disk) :
    Quiet n (storeEntries newIdx i logLen entries n) := by
  induction entries generalizing i logLen n with
  | nil => exact .refl n
  | cons entry entries ih =>
      unfold storeEntries
      dsimp only
      split
      · split
        · exact (n.logRemoveLastN_quiet _).trans
            ((logWrite_quiet _ _ _ (by simp)).trans (ih _ _ _))
        · exact ih _ _ _
      · exact (logWrite_quiet _ _ _ (by simp)).trans (ih _ _ _)

theorem advanceCommit_quiet (n : Node Disk) (req : AppendEntriesReq) :
    Quiet n (n.advanceCommit req) := by
  unfold advanceCommit
  split
  · refine Quiet.trans ?_ (applyToStateMachine_quiet _)
    exact .mem rfl rfl rfl rfl rfl
  · exact .refl n

theorem acceptAppendEntries_quiet (env : Env) (n : Node Disk) {curTerm : ℕ}
    (h : curTerm ≤ n.store.currentTerm) (req : AppendEntriesReq) :
    Quiet n (n.acceptAppendEntries env curTerm req) := by
  have respond : ∀ {m : Node Disk} {dst newMatch success : ℕ}, Quiet n m →
      Quiet n (m.sendAppendEntriesResponse dst curTerm newMatch success) :=
    fun {m} _ _ _ hm => hm.trans (.appendEntriesRes (h.trans hm.currentTerm.ge))
  unfold acceptAppendEntries
  dsimp only
  generalize hm : setFaultDetectTimer env _ = m
  have hq : Quiet n m := by
    subst hm
    split <;> exact .mem rfl rfl rfl rfl rfl
  split
  · exact hq
  · split
    · exact respond hq
    · exact respond (hq.trans ((storeEntries_quiet _ _ _ _ m).trans (advanceCommit_quiet _ _)))

theorem tryCommit_quiet (curTerm : ℕ) (n : Node Disk) (k : ℤ) : Quiet n (n.tryCommit curTerm k) := by
  unfold tryCommit
  split
  · exact .refl n
  · split
    · exact (Quiet.note id).trans (.mem rfl rfl rfl rfl rfl)
    · exact .refl n

theorem commitLoop_quiet (curTerm : ℕ) (logLen : ℤ) (n : Node Disk) :
    Quiet n (n.commitLoop curTerm logLen) :=
  quiet_foldl _ _ fun m _ _ => m.tryCommit_quiet _ _

theorem appendLogEntry_quiet (n : Node Disk) (entry : LogEntry) :
    Quiet n (n.appendLogEntry entry) := by
  unfold appendLogEntry
  dsimp only
  split
  · exact .refl n
  · refine logWrite_quiet _ _ _ fun e he => ?_
    obtain rfl := Option.some.inj he
    exact id

theorem recordOutstanding_quiet (n : Node Disk) (req : ProcReq) (logLen : ℤ) :
    Quiet n (n.recordOutstanding req logLen) := by
  unfold recordOutstanding
  split
  · exact .refl _
  · exact .mem rfl rfl rfl rfl rfl

theorem handleProcRequest_quiet (n : Node Disk) (req : ProcReq) (srcId : ℕ) :
    Quiet n (n.handleProcRequest req srcId) := by
  unfold handleProcRequest
  split
  · exact Quiet.procRes
  · exact (n.appendLogEntry_quiet _).trans
      ((recordOutstanding_quiet _ _ _).trans (broadcastAppendEntries_quiet _))

end Node

end GeoRaft
