import GeoRaft.Node.Lives

/-!
The replies to the client requests a leader accepted.

A leader takes one of its 128 slots for a request and frees it when it replies. For each
command the requests, the slots and the replies are counted against each other, along a run
of one process with any number of leaderships. A response that makes the process write
outside its tables is ignored here, as in `Lives`.
-/

namespace GeoRaft

/-- What identifies a client request; a client may send it more than once. -/
structure Command where
  clientId : ℕ
  cmdSeqno : ℕ
  deriving DecidableEq, Repr

/-- The slot has been taken by this command. -/
def Command.holds (c : Command) (r : OutstandingReq) : Bool :=
  r.active && r.clientId == c.clientId && r.cmdSeqno == c.cmdSeqno

def LogEntry.command (entry : LogEntry) : Command := ⟨entry.clientId, entry.cmdSeqno⟩

def ProcReq.command (req : ProcReq) : Command := ⟨req.clientId, req.cmdSeqno⟩

def ProcRes.command (res : ProcRes) : Command := ⟨res.clientId, res.cmdSeqno⟩

/-- The requests for one command, and what became of them. -/
structure Ledger where
  /-- Accepted in the current leadership and not applied yet. -/
  pending : List (ℤ × LogEntry)
  accepted : ℕ
  /-- Applied in the leadership they were accepted in. -/
  served : ℕ
  /-- The replies with `success = 1`. -/
  replies : ℕ
  deriving DecidableEq, Repr

namespace Ledger

def after (c : Command) (b : Ledger) : Effect Disk → Ledger
  | .store _ (some (.accept idx entry)) =>
    if entry.command = c then
      { b with pending := ((idx : ℤ), entry) :: b.pending, accepted := b.accepted + 1 }
    else b
  | .note (.becameFollower _) => { b with pending := [] }
  | .note (.apply idx entry) =>
    if entry.command = c ∧ (idx, entry) ∈ b.pending then
      { b with pending := b.pending.erase (idx, entry), served := b.served + 1 }
    else b
  | .send ⟨_, _, .procRes res⟩ =>
    if res.success = 1 ∧ res.command = c then { b with replies := b.replies + 1 } else b
  | _ => b

/-- What the slots of a command are worth: a slot stands for a reply still to come. -/
structure Fits (b : Ledger) (slots : ℕ) : Prop where
  owed : b.pending.length + b.served ≤ b.replies + slots
  served : b.served ≤ b.replies
  accepted : b.replies + slots ≤ b.accepted

variable {b : Ledger} {slots : ℕ} {c : Command}

theorem Fits.forget (h : b.Fits slots) : ({ b with pending := [] } : Ledger).Fits slots where
  owed := by
    have := h.owed
    rw [List.length_nil]
    dsimp only
    omega
  served := h.served
  accepted := h.accepted

theorem Fits.accept (h : b.Fits slots) (x : ℤ × LogEntry) :
    ({ b with pending := x :: b.pending, accepted := b.accepted + 1 } : Ledger).Fits
      (slots + 1) where
  owed := by
    have := h.owed
    rw [List.length_cons]
    dsimp only
    omega
  served := h.served
  accepted := by
    have := h.accepted
    dsimp only
    omega

/-- An entry of another command. -/
theorem after_apply_ne {entry : LogEntry} (h : entry.command ≠ c) (idx : ℤ) :
    b.after c (.note (.apply idx entry)) = b := if_neg fun hcond => h hcond.1

/-- Applying without a reply is right when no slot is left. -/
theorem Fits.apply_unowed (h : b.Fits 0) (idx : ℤ) (entry : LogEntry) :
    (b.after c (.note (.apply idx entry))).Fits 0 := by
  have howed := h.owed
  unfold after
  dsimp only
  split
  · rename_i hcond
    have hpos := List.length_pos_of_mem hcond.2
    refine ⟨?_, ?_, h.accepted⟩ <;> dsimp only
    · rw [List.length_erase_of_mem hcond.2]
      omega
    · omega
  · exact h

/-- Applying with a reply. -/
theorem Fits.apply_owed (h : b.Fits (slots + 1)) (idx : ℤ) (entry : LogEntry) :
    ({ b.after c (.note (.apply idx entry)) with
      replies := (b.after c (.note (.apply idx entry))).replies + 1 } : Ledger).Fits slots := by
  have howed := h.owed
  have hserved := h.served
  have haccepted := h.accepted
  unfold after
  dsimp only
  split
  · rename_i hcond
    have hpos := List.length_pos_of_mem hcond.2
    refine ⟨?_, ?_, ?_⟩ <;> dsimp only
    · rw [List.length_erase_of_mem hcond.2]
      omega
    · omega
    · omega
  · refine ⟨?_, ?_, ?_⟩ <;> dsimp only <;> omega

end Ledger

/-- What the effects of a process say about a command. -/
def ledger (c : Command) (es : List (Effect Disk)) : Ledger :=
  es.foldl (Ledger.after c) ⟨[], 0, 0, 0⟩

theorem ledger_snoc (c : Command) (es : List (Effect Disk)) (e : Effect Disk) :
    ledger c (es ++ [e]) = (ledger c es).after c e := by
  rw [ledger, List.foldl_append]
  rfl

/-- What one change at the first element with `q` does to a count. -/
theorem countP_modify_findIdx {α : Type} {p q : α → Bool} (f : α → α) {l : List α} {i : ℕ}
    (h : l.findIdx? q = some i) : ∃ x, q x = true ∧
      (l.modify i f).countP p + (p x).toNat = l.countP p + (p (f x)).toNat := by
  have hcons : ∀ (x : α) (l : List α), (x :: l).countP p = l.countP p + (p x).toNat := by
    intro x l
    rw [List.countP_cons]
    cases p x <;> rfl
  induction l generalizing i with
  | nil => cases h
  | cons x l ih =>
      rw [List.findIdx?_cons] at h
      split at h
      · rename_i hx
        obtain rfl := Option.some.inj h
        refine ⟨x, hx, ?_⟩
        rw [List.modify_zero_cons, hcons, hcons]
        omega
      · obtain ⟨j, hj, rfl⟩ := Option.map_eq_some_iff.mp h
        obtain ⟨y, hy, hcount⟩ := ih hj
        refine ⟨y, hy, ?_⟩
        rw [List.modify_succ_cons, hcons, hcons]
        omega

namespace Node

def slots (n : Node Disk) (c : Command) : ℕ := n.outstandingReqs.countP c.holds

structure Balanced (c : Command) (n : Node Disk) : Prop where
  fits : (ledger c n.script).Fits (n.slots c)
  leads : (ledger c n.script).pending ≠ [] → n.role = .leader

variable {c : Command} {n n' : Node Disk}

theorem Balanced.mem (h : Balanced c n) (hs : n'.script = n.script)
    (ho : n'.outstandingReqs = n.outstandingReqs) (hr : n.role = .leader → n'.role = .leader) :
    Balanced c n' where
  fits := by
    rw [hs, slots, ho]
    exact h.fits
  leads := by
    rw [hs]
    exact fun hne => hr (h.leads hne)

/-- An effect that is not booked. -/
theorem Balanced.snoc (h : Balanced c n) {e : Effect Disk} (he : ∀ b : Ledger, b.after c e = b) :
    Balanced c { n with script := n.script ++ [e] } where
  fits := by
    rw [ledger_snoc, he]
    exact h.fits
  leads := by
    rw [ledger_snoc, he]
    exact h.leads

theorem Balanced.put (h : Balanced c n) {d : Disk} {event : Option Event}
    (he : ∀ b : Ledger, b.after c (.store d event) = b) : Balanced c (n.put d event) :=
  (h.snoc he).mem rfl rfl id

theorem Balanced.send (h : Balanced c n) (dst : ℕ) {rpc : Rpc}
    (hrpc : ∀ res, rpc = .procRes res → res.success = 0) : Balanced c (n.send dst rpc) := by
  refine h.snoc fun b => ?_
  cases rpc with
  | procRes res =>
      have hzero := hrpc res rfl
      exact if_neg fun hcond => by rw [hzero] at hcond; exact absurd hcond.1 (by decide)
  | _ => rfl

theorem Balanced.note (h : Balanced c n) {event : Event}
    (he : ∀ b : Ledger, b.after c (.note event) = b) : Balanced c (n.note event) := h.snoc he

theorem Balanced.forOthers (h : Balanced c n) {rpc : Node Disk → ℕ → Rpc}
    (hrpc : ∀ m i res, rpc m i = .procRes res → res.success = 0) :
    Balanced c (n.forOthers fun m i => m.send i (rpc m i)) := by
  refine forOthers_induct (motive := fun _ m => Balanced c m) n h fun k m _ hm => ?_
  split
  · exact hm
  · exact hm.send _ (hrpc m k)

/-! ### Broadcasts and roles -/

theorem Balanced.broadcastRequestVote (h : Balanced c n) : Balanced c n.broadcastRequestVote := by
  unfold Node.broadcastRequestVote
  dsimp only
  split
  · exact h
  · exact h.forOthers (by simp)

theorem Balanced.sendHeartbeats (h : Balanced c n) : Balanced c n.sendHeartbeats := by
  unfold Node.sendHeartbeats
  split
  · exact h
  · exact h.forOthers (by simp)

theorem Balanced.broadcastAppendEntries (h : Balanced c n) :
    Balanced c n.broadcastAppendEntries := by
  unfold Node.broadcastAppendEntries
  split
  · exact h
  · exact h.forOthers (by simp)

theorem Balanced.setElectionTimer (h : Balanced c n) (env : Env) :
    Balanced c (n.setElectionTimer env) := h.mem rfl rfl id

theorem Balanced.countVotes (h : Balanced c n) (votes : ℕ) :
    Balanced c { n with votesReceived := votes } := h.mem rfl rfl id

theorem Balanced.startElection (h : Balanced c n) (env : Env) : Balanced c (n.startElection env) := by
  unfold Node.startElection
  dsimp only
  split
  · exact h
  · refine Balanced.broadcastRequestVote ?_
    refine Balanced.setElectionTimer ?_ env
    refine Balanced.countVotes ?_ 1
    refine Balanced.put ?_ fun _ => rfl
    exact h.put fun _ => rfl

theorem Balanced.becomeFollower (h : Balanced c n) (env : Env) (term leaderId : ℕ) :
    Balanced c (n.becomeFollower env term leaderId) := by
  -- nothing of the old leadership is waited for
  have hscript : (n.becomeFollower env term leaderId).script = n.script ++
      [.note (.becameFollower term)] ++ [.store (Storage.set .currentTerm term n.store).2 none] ++
      [.store (n.becomeFollower env term leaderId).store none] := rfl
  have hledger : ledger c (n.becomeFollower env term leaderId).script =
      { ledger c n.script with pending := [] } := by
    rw [hscript, ledger_snoc, ledger_snoc, ledger_snoc]
    rfl
  refine ⟨?_, ?_⟩
  · rw [hledger]
    exact h.fits.forget
  · rw [hledger]
    exact fun hne => absurd rfl hne

/-- Only a node that is no leader becomes a candidate. -/
theorem Balanced.becomeCandidate (h : Balanced c n) (hr : n.role ≠ .leader) (env : Env) :
    Balanced c (n.becomeCandidate env) := by
  unfold Node.becomeCandidate
  dsimp only
  refine Balanced.startElection ?_ env
  exact h.mem rfl rfl fun hlead => absurd hlead hr

theorem Balanced.becomeLeader (h : Balanced c n) (env : Env) : Balanced c (n.becomeLeader env) := by
  unfold Node.becomeLeader
  dsimp only
  refine Balanced.sendHeartbeats ?_
  have hnote := @Balanced.note c n h (.becameLeader (Word.u32 (n.get .currentTerm))) fun _ => rfl
  exact hnote.mem rfl rfl fun _ => rfl

/-! ### Requests and replies -/

theorem ne_of_holds {c' : Command} {r : OutstandingReq} (h : c.holds r = true) (hne : c ≠ c') :
    c'.holds r = false := by
  by_contra htrue
  simp only [Command.holds, Bool.not_eq_false, Bool.and_eq_true, beq_iff_eq] at h htrue
  apply hne
  cases c
  cases c'
  simp_all

theorem not_holds_freed (r : OutstandingReq) : c.holds { r with active := false } = false := rfl

theorem Balanced.reply (h : Balanced c n) {idx : ℤ} (entry : LogEntry) (hr : n.role = .leader) :
    Balanced c ((n.note (.apply idx entry)).replyOutstanding idx entry) := by
  have hfits := h.fits
  unfold replyOutstanding
  split
  · -- nobody waits for this entry
    rename_i hnone
    refine ⟨?_, fun _ => hr⟩
    show (ledger c (n.script ++ [.note (.apply idx entry)])).Fits (n.slots c)
    rw [ledger_snoc]
    by_cases hc : entry.command = c
    · have hzero : n.slots c = 0 := by
        subst hc
        exact List.countP_eq_zero.mpr fun r hmem =>
          Bool.not_eq_true _ ▸ List.findIdx?_eq_none_iff.mp hnone r hmem
      rw [hzero] at hfits ⊢
      exact hfits.apply_unowed idx entry
    · rw [Ledger.after_apply_ne hc]
      exact hfits
  · -- the slot of `entry` is freed
    rename_i i hi
    refine ⟨?_, fun _ => hr⟩
    dsimp only
    generalize Word.u32 _ = term
    show (ledger c (n.script ++ [.note (.apply idx entry)] ++ [.note (.reply idx entry)] ++
      [.send ⟨entry.clientId, n.config.id,
        .procRes ⟨entry.clientId, entry.cmdSeqno, 1, n.config.id, term⟩⟩])).Fits
      ((n.outstandingReqs.modify i fun r => { r with active := false }).countP c.holds)
    obtain ⟨x, hx, hcount⟩ := countP_modify_findIdx (p := c.holds)
      (fun r => { r with active := false }) hi
    rw [not_holds_freed, Bool.toNat_false, add_zero] at hcount
    rw [ledger_snoc, ledger_snoc, ledger_snoc]
    by_cases hc : entry.command = c
    · have hslots : n.slots c = (n.outstandingReqs.modify i fun r =>
          { r with active := false }).countP c.holds + 1 := by
        subst hc
        have hheld : entry.command.holds x = true := hx
        rw [hheld] at hcount
        exact hcount.symm
      rw [hslots] at hfits
      have hbooked := hfits.apply_owed (c := c) idx entry
      have hsend : ∀ b : Ledger, b.after c (.send ⟨entry.clientId, n.config.id,
          .procRes ⟨entry.clientId, entry.cmdSeqno, 1, n.config.id, term⟩⟩) =
          { b with replies := b.replies + 1 } := fun b => if_pos ⟨rfl, hc⟩
      rw [hsend]
      exact hbooked
    · have hother : c.holds x = false := ne_of_holds (c := entry.command) hx hc
      have hslots : (n.outstandingReqs.modify i fun r =>
          { r with active := false }).countP c.holds = n.slots c := by
        rw [hother] at hcount
        exact hcount
      have hsend : ∀ b : Ledger, b.after c (.send ⟨entry.clientId, n.config.id,
          .procRes ⟨entry.clientId, entry.cmdSeqno, 1, n.config.id, term⟩⟩) = b :=
        fun b => if_neg fun hcond => hc hcond.2
      have hreply : ∀ b : Ledger, b.after c (.note (.reply idx entry)) = b := fun _ => rfl
      rw [hslots, hsend, hreply, Ledger.after_apply_ne hc]
      exact hfits

/-- A node that is no leader has nothing pending, so what it applies is not booked. -/
theorem Balanced.apply_follower (h : Balanced c n) (hr : n.role ≠ .leader) (idx : ℤ)
    (entry : LogEntry) : Balanced c (n.note (.apply idx entry)) := by
  have hnone : (ledger c n.script).pending = [] := by
    by_contra hne
    exact hr (h.leads hne)
  have hafter : (ledger c n.script).after c (.note (.apply idx entry)) = ledger c n.script :=
    if_neg fun hcond => by
      rw [hnone] at hcond
      exact absurd hcond.2 List.not_mem_nil
  have hledger : ledger c (n.note (.apply idx entry)).script = ledger c n.script := by
    show ledger c (n.script ++ [.note (.apply idx entry)]) = _
    rw [ledger_snoc, hafter]
  refine ⟨?_, ?_⟩
  · rw [hledger]
    exact h.fits
  · rw [hledger]
    exact h.leads

theorem Balanced.applyNext (h : Balanced c n) : Balanced c n.applyNext := by
  have hlast : Balanced c { n with lastApplied := n.lastApplied + 1 } := h.mem rfl rfl id
  unfold Node.applyNext
  dsimp only
  split
  · exact hlast
  · rename_i entry _
    split
    · rename_i hr
      exact hlast.reply entry hr
    · rename_i hr
      exact hlast.apply_follower hr _ entry

theorem Balanced.applyLoop (h : Balanced c n) (fuel : ℕ) : Balanced c (Node.applyLoop fuel n) := by
  induction fuel generalizing n with
  | zero => exact h
  | succ fuel ih =>
      rw [Node.applyLoop]
      split
      · exact ih h.applyNext
      · exact h

theorem Balanced.applyToStateMachine (h : Balanced c n) : Balanced c n.applyToStateMachine :=
  h.applyLoop _

theorem Balanced.storeEntries (h : Balanced c n) (newIdx i : ℕ) (logLen : ℤ)
    (entries : List LogEntry) : Balanced c (Node.storeEntries newIdx i logLen entries n) := by
  induction entries generalizing i logLen n with
  | nil => exact h
  | cons entry entries ih =>
      have hremove : ∀ {m : Node Disk}, Balanced c m → ∀ k, Balanced c (m.logRemoveLastN k) :=
        fun hm _ => hm.put fun _ => rfl
      have hwrite : ∀ {m : Node Disk}, Balanced c m → ∀ idx, Balanced c (m.logWrite idx entry) :=
        fun hm _ => hm.put fun _ => rfl
      rw [Node.storeEntries]
      dsimp only
      split
      · split
        · exact ih (hwrite (hremove h _) _) _ _
        · exact ih h _ _
      · exact ih (hwrite h _) _ _

theorem Balanced.advanceCommit (h : Balanced c n) (req : AppendEntriesReq) :
    Balanced c (n.advanceCommit req) := by
  unfold Node.advanceCommit
  split
  · refine Balanced.applyToStateMachine ?_
    exact h.mem rfl rfl id
  · exact h

theorem Balanced.acceptAppendEntries (h : Balanced c n) (env : Env) (curTerm : ℕ)
    (req : AppendEntriesReq) : Balanced c (n.acceptAppendEntries env curTerm req) := by
  have hanswer : ∀ {m : Node Disk}, Balanced c m → ∀ newMatch success,
      Balanced c (m.sendAppendEntriesResponse req.leaderId curTerm newMatch success) :=
    fun hm _ _ => hm.send _ (by simp)
  unfold Node.acceptAppendEntries
  dsimp only
  generalize hm : setFaultDetectTimer env _ = m
  have hmem : Balanced c m := by
    subst hm
    split <;> exact h.mem rfl rfl id
  split
  · exact hmem
  split
  · exact hanswer hmem 0 0
  · exact hanswer ((hmem.storeEntries _ _ _ _).advanceCommit req) _ _

theorem Balanced.handleAppendEntriesRequest (h : Balanced c n) (env : Env)
    (req : AppendEntriesReq) : Balanced c (n.handleAppendEntriesRequest env req) := by
  unfold Node.handleAppendEntriesRequest
  dsimp only
  split
  · exact h
  split
  · exact h.send _ (by simp)
  · refine Balanced.acceptAppendEntries ?_ env _ req
    split
    · exact h.becomeFollower env _ _
    · exact h.mem rfl rfl id

theorem Balanced.commitLoop (h : Balanced c n) (curTerm : ℕ) (logLen : ℤ) :
    Balanced c (n.commitLoop curTerm logLen) := by
  unfold Node.commitLoop
  refine foldl_range_induct (motive := fun _ m => Balanced c m) _ h fun k m _ hm => ?_
  unfold tryCommit
  split
  · exact hm
  split
  · have hnote : ∀ idx, Balanced c (m.note (.commit curTerm idx)) := fun _ => hm.note fun _ => rfl
    exact (hnote _).mem rfl rfl id
  · exact hm

theorem Balanced.handleAppendEntriesResponse (h : Balanced c n) (env : Env) (srcId : ℕ)
    (resp : AppendEntriesRes) : Balanced c (n.handleAppendEntriesResponse env srcId resp) := by
  unfold Node.handleAppendEntriesResponse
  dsimp only
  split
  · exact h.becomeFollower env _ _
  split
  · exact h
  split
  · refine Balanced.applyToStateMachine (Balanced.commitLoop ?_ _ _)
    exact h.mem rfl rfl id
  split
  · exact h.mem rfl rfl id
  · exact h

theorem Balanced.decideVote (h : Balanced c n) (env : Env) (curTerm : ℕ) (req : RequestVoteReq) :
    Balanced c (n.decideVote env curTerm req) := by
  unfold Node.decideVote
  dsimp only
  split
  · exact h
  split
  · exact h.send _ (by simp)
  · refine Balanced.send ?_ _ (by simp)
    refine Balanced.setElectionTimer ?_ env
    exact h.put fun _ => rfl

theorem Balanced.handleRequestVoteRequest (h : Balanced c n) (env : Env) (srcId : ℕ)
    (req : RequestVoteReq) : Balanced c (n.handleRequestVoteRequest env srcId req) := by
  unfold Node.handleRequestVoteRequest
  dsimp only
  split
  · exact h
  split
  · exact h.send _ (by simp)
  split
  · exact (h.becomeFollower env _ _).decideVote env _ req
  · exact h.decideVote env _ req

theorem Balanced.handleRequestVoteResponse (h : Balanced c n) (env : Env) (srcId : ℕ)
    (resp : RequestVoteRes) : Balanced c (n.handleRequestVoteResponse env srcId resp) := by
  unfold Node.handleRequestVoteResponse
  dsimp only
  split
  · exact h
  split
  · exact h.becomeFollower env _ _
  split
  · exact h
  split
  · split
    · exact (h.countVotes _).becomeLeader env
    · exact h.countVotes _
  · exact h

/-- A request for `c` that the node gets as leader can be written to the log, and finds a
slot. -/
def HasRoom (c : Command) (n : Node Disk) : Input → Prop
  | .packet _ ⟨dst, _, .procReq req⟩ =>
    dst = n.config.id → n.role = .leader → req.command = c →
      0 ≤ n.logLength ∧ ∃ r ∈ n.outstandingReqs, r.active = false
  | _ => True

instance (c : Command) (n : Node Disk) : ∀ input : Input, Decidable (HasRoom c n input)
  | .packet _ ⟨dst, _, .procReq req⟩ =>
    inferInstanceAs (Decidable (dst = n.config.id → n.role = .leader → req.command = c → _ ∧ _))
  | .packet _ ⟨_, _, .procRes _⟩ | .packet _ ⟨_, _, .appendEntriesReq _⟩
  | .packet _ ⟨_, _, .appendEntriesRes _⟩ | .packet _ ⟨_, _, .requestVoteReq _⟩
  | .packet _ ⟨_, _, .requestVoteRes _⟩ | .timeout _ => inferInstanceAs (Decidable True)

/-- Taking a slot for a request; without a free slot nothing changes. -/
theorem slots_recordOutstanding (req : ProcReq) (logLen : ℤ)
    (hfree : req.command = c → ∃ r ∈ n.outstandingReqs, r.active = false) :
    (n.recordOutstanding req logLen).slots c = n.slots c + if req.command = c then 1 else 0 := by
  unfold recordOutstanding
  split
  · rename_i hnone
    rw [if_neg, add_zero]
    intro hc
    obtain ⟨r, hr, hinactive⟩ := hfree hc
    have hactive := List.findIdx?_eq_none_iff.mp hnone r hr
    rw [hinactive] at hactive
    cases hactive
  · rename_i i hi
    obtain ⟨x, hx, hcount⟩ := countP_modify_findIdx (p := c.holds)
      (fun _ => ⟨req.clientId, req.cmdSeqno, Word.u32 logLen, true⟩) hi
    have hold : c.holds x = false := by
      rw [Bool.not_eq_true'] at hx
      rw [Command.holds, hx]
      rfl
    rw [← List.set_eq_modify, hold] at hcount
    have hnew : (c.holds ⟨req.clientId, req.cmdSeqno, Word.u32 logLen, true⟩).toNat =
        if req.command = c then 1 else 0 := by
      split
      · rename_i hc
        subst hc
        simp [Command.holds, ProcReq.command]
      · rename_i hc
        rw [ne_of_holds (c := req.command) (by simp [Command.holds, ProcReq.command]) hc]
        rfl
    rw [hnew] at hcount
    exact hcount

theorem recordOutstanding_script (req : ProcReq) (logLen : ℤ) :
    (n.recordOutstanding req logLen).script = n.script := by
  unfold recordOutstanding
  split <;> rfl

theorem recordOutstanding_role (req : ProcReq) (logLen : ℤ) :
    (n.recordOutstanding req logLen).role = n.role := by
  unfold recordOutstanding
  split <;> rfl

/-- A request is booked together with its slot. -/
theorem Balanced.booked (h : Balanced c n) (hr : n.role = .leader) (d : Disk) (idx : ℕ)
    {entry : LogEntry} {req : ProcReq} (hcommand : entry.command = req.command) (logLen : ℤ)
    (hfree : req.command = c → ∃ r ∈ n.outstandingReqs, r.active = false) :
    Balanced c ((n.put d (some (.accept idx entry))).recordOutstanding req logLen) := by
  have hslots := slots_recordOutstanding (n := n.put d (some (.accept idx entry))) req logLen hfree
  refine ⟨?_, fun _ => (recordOutstanding_role req logLen).trans hr⟩
  rw [recordOutstanding_script, hslots, put_script, ledger_snoc, Ledger.after, hcommand]
  split
  · exact h.fits.accept _
  · exact h.fits

/-- A request that cannot be written takes a slot all the same. -/
theorem Balanced.unbooked (h : Balanced c n) (hr : n.role = .leader) {req : ProcReq}
    (hc : req.command ≠ c) (logLen : ℤ) : Balanced c (n.recordOutstanding req logLen) := by
  have hslots := slots_recordOutstanding (n := n) req logLen fun h => absurd h hc
  refine ⟨?_, fun _ => (recordOutstanding_role req logLen).trans hr⟩
  rw [recordOutstanding_script, hslots, if_neg hc]
  exact h.fits

theorem Balanced.accept (h : Balanced c n) (hr : n.role = .leader) {req : ProcReq} (term : ℕ)
    (logLen : ℤ) (hroom : req.command = c → 0 ≤ n.logLength ∧
      ∃ r ∈ n.outstandingReqs, r.active = false) :
    Balanced c ((n.appendLogEntry ⟨term, req.clientId, req.cmdSeqno, req.cmd⟩).recordOutstanding
      req logLen) := by
  unfold appendLogEntry
  dsimp only
  split
  · rename_i hneg
    exact h.unbooked hr (fun hc => absurd (hroom hc).1 (not_le.mpr hneg)) logLen
  · rw [logWrite]
    exact h.booked hr _ _ rfl logLen fun hc => (hroom hc).2

theorem Balanced.handleProcRequest (h : Balanced c n) {req : ProcReq} (srcId : ℕ)
    (hroom : n.role = .leader → req.command = c → 0 ≤ n.logLength ∧
      ∃ r ∈ n.outstandingReqs, r.active = false) : Balanced c (n.handleProcRequest req srcId) := by
  unfold Node.handleProcRequest
  dsimp only
  split
  · refine h.send _ fun res hres => ?_
    obtain rfl := Rpc.procRes.inj hres
    rfl
  · rename_i hr
    rw [not_not] at hr
    exact Balanced.broadcastAppendEntries (h.accept hr _ _ (hroom hr))

theorem Balanced.raftHandleTimeout (h : Balanced c n) (env : Env) :
    Balanced c (n.raftHandleTimeout env) := by
  unfold Node.raftHandleTimeout
  split
  · rename_i hr
    have hnot : n.role ≠ .leader := by
      rw [hr]
      decide
    split
    · exact h.becomeCandidate hnot env
    split
    · exact h.becomeCandidate hnot env
    · exact h.mem rfl rfl id
  · exact h.startElection env
  · have hsent : Balanced c (n.setHeartbeatTimer env).sendHeartbeats :=
      Balanced.sendHeartbeats (h.mem rfl rfl id)
    dsimp only
    generalize (n.setHeartbeatTimer env).sendHeartbeats = m at hsent ⊢
    have hcount : Balanced c { m with heartbeatCount := m.heartbeatCount + 1 } :=
      hsent.mem rfl rfl id
    split
    · exact hcount.snoc fun _ => rfl
    · exact hcount

theorem Balanced.handle (h : Balanced c n) {input : Input} (hroom : HasRoom c n input) :
    Balanced c (n.handle input) := by
  cases input with
  | timeout env => exact h.raftHandleTimeout env
  | packet env pkt =>
      rw [Node.handle]
      split
      · exact h
      · rename_i hdst
        obtain ⟨dst, src, rpc⟩ := pkt
        cases rpc with
        | appendEntriesReq req => exact h.handleAppendEntriesRequest env req
        | appendEntriesRes resp => exact h.handleAppendEntriesResponse env src resp
        | requestVoteReq req => exact h.handleRequestVoteRequest env src req
        | requestVoteRes resp => exact h.handleRequestVoteResponse env src resp
        | procReq req => exact h.handleProcRequest src (hroom (not_not.mp hdst))
        | procRes res => exact h

theorem balanced_create (c : Command) (config : Config) (disk : Disk) :
    Balanced c (raftCreate config disk) where
  fits := by
    have hslots : (raftCreate config disk).slots c = 0 :=
      List.countP_eq_zero.mpr fun r hr => by
        rw [List.eq_of_mem_replicate hr]
        exact Bool.false_ne_true
    rw [hslots]
    exact ⟨le_rfl, le_rfl, le_rfl⟩
  leads := fun hne => absurd rfl hne

/-- One process of a node, from its start on whatever its disk holds. Its effects stay in the
script. -/
inductive Process (c : Command) (config : Config) (disk : Disk) : Node Disk → Prop
  | start : Process c config disk (raftCreate config disk)
  | step {n : Node Disk} {input : Input} (hn : Process c config disk n)
      (halive : .exit ∉ n.script) (hroom : HasRoom c n input) :
      Process c config disk (n.handle input)

theorem Process.balanced {config : Config} {disk : Disk} (h : Process c config disk n) :
    Balanced c n := by
  induction h with
  | start => exact balanced_create c config disk
  | step _ _ hroom ih => exact ih.handle hroom

/-- A process replies to a command at most as often as it accepted it, and at least as often
as it accepted it and applied it in the same leadership. -/
theorem replies_counted {config : Config} {disk : Disk} (h : Process c config disk n) :
    (ledger c n.script).served ≤ (ledger c n.script).replies ∧
      (ledger c n.script).replies ≤ (ledger c n.script).accepted :=
  ⟨h.balanced.fits.served, le_trans (Nat.le_add_right _ _) h.balanced.fits.accepted⟩

/-- Feed a process as long as it may go on. -/
def feed (c : Command) : Node Disk → List Input → Option (Node Disk)
  | n, [] => some n
  | n, input :: inputs =>
    if n.script.contains .exit then none
    else if HasRoom c n input then feed c (n.handle input) inputs
    else none

theorem Process.of_feed {config : Config} {disk : Disk} {inputs : List Input}
    (h : Process c config disk n) (hfeed : feed c n inputs = some n') :
    Process c config disk n' := by
  induction inputs generalizing n with
  | nil => exact (Option.some.inj hfeed) ▸ h
  | cons input inputs ih =>
      rw [feed] at hfeed
      split at hfeed
      · cases hfeed
      · rename_i halive
        split at hfeed
        · rename_i hroom
          exact ih (.step h (mt List.contains_iff_mem.mpr halive) hroom) hfeed
        · cases hfeed

/-- Elected, asked for one command, and told that it is stored elsewhere. -/
def oneCommand : List Input :=
  [.timeout ⟨0, 0⟩, .packet ⟨1, 0⟩ ⟨0, 1, .requestVoteRes ⟨1, 1⟩⟩,
    .packet ⟨2, 0⟩ ⟨0, 9, .procReq ⟨9, 4, 7⟩⟩, .packet ⟨3, 0⟩ ⟨0, 1, .appendEntriesRes ⟨1, 0, 1⟩⟩]

theorem replies_counted_one : ∃ n, Process ⟨9, 4⟩ (.plain 3 0) .init n ∧
    (ledger ⟨9, 4⟩ n.script).accepted = 1 ∧ (ledger ⟨9, 4⟩ n.script).replies = 1 := by
  have hrun : (feed ⟨9, 4⟩ (raftCreate (.plain 3 0) .init) oneCommand).any (fun n =>
      (ledger ⟨9, 4⟩ n.script).accepted = 1 ∧ (ledger ⟨9, 4⟩ n.script).served = 1) = true := by
    decide +kernel
  obtain ⟨n, hn, hledger⟩ := (Option.any_eq_true _ _).mp hrun
  obtain ⟨haccepted, hserved⟩ := of_decide_eq_true hledger
  have hprocess := Process.of_feed .start hn
  obtain ⟨hlower, hupper⟩ := replies_counted hprocess
  exact ⟨n, hprocess, haccepted, by omega⟩

end Node

end GeoRaft
