import Mathlib.Data.Prod.Lex
import GeoRaft.Node.InRange

/-!
The order that voters put logs in.

A candidate announces its last index and its last term. An empty log is announced with
the largest index there is and the term 0, which no entry has.
-/

namespace GeoRaft

open Word

namespace Node

/-- The request that `broadcast_request_vote` sends to everyone. -/
def voteReq (n : Node Disk) : RequestVoteReq where
  term := u32 (n.get .currentTerm)
  candidateId := n.config.id
  lastLogIdx := u32 (n.logLength - 1)
  lastLogTerm := n.raftGetLogTerm (i32 (n.logLength - 1))

/-- The check of the voter `v` lets the candidate `c` pass. -/
def Accepts (v c : Node Disk) : Prop :=
  v.logIsUpToDate c.voteReq.lastLogIdx c.voteReq.lastLogTerm = true

/-- The last term, and then the length. -/
def rank (n : Node Disk) : ℕ ×ₗ ℕ :=
  toLex (termBefore n.store.log n.store.log.length, n.store.log.length)

/-- A log that fits and whose entries have been written in terms of a leader. -/
structure Presentable (n : Node Disk) : Prop where
  length : n.store.log.length < 2 ^ 31
  term : ∀ entry ∈ n.store.log, 1 ≤ entry.term

variable {a b c v n : Node Disk}

theorem Presentable.broadcastRequestVote (h : Presentable n) :
    n.broadcastRequestVote = n.forOthers fun m i => m.send i (.requestVoteReq n.voteReq) := by
  have hlen := logLength_eq h.length
  rw [Node.broadcastRequestVote]
  dsimp only
  rw [if_neg (by omega)]
  rfl

/-- Only an empty log ends in term 0. -/
theorem Presentable.lastTerm_eq_zero_iff (h : Presentable n) :
    termBefore n.store.log n.store.log.length = 0 ↔ n.store.log.length = 0 := by
  constructor
  · intro hterm
    by_contra hne
    obtain ⟨k, hk⟩ := Nat.exists_eq_succ_of_ne_zero hne
    have hx : n.store.log[k]? = some n.store.log[k] := List.getElem?_eq_getElem (by omega)
    rw [hk, termBefore_succ hx] at hterm
    have := h.term _ (List.mem_of_getElem? hx)
    omega
  · intro hlen
    rw [hlen, termBefore_zero]

theorem Presentable.accepts_iff (hv : Presentable v) (hc : Presentable c) :
    Accepts v c ↔ rank v ≤ rank c := by
  have hvterm := hv.lastTerm_eq_zero_iff
  have hcterm := hc.lastTerm_eq_zero_iff
  have hidx : c.voteReq.lastLogIdx = u32 ((c.store.log.length : ℤ) - 1) := by
    rw [voteReq, logLength_eq hc.length]
  have hterm : c.voteReq.lastLogTerm = termBefore c.store.log c.store.log.length := by
    rw [voteReq, raftGetLogTerm_last hc.length]
  rw [Accepts, hidx, hterm, logIsUpToDate_iff hv.length hc.length, rank, rank,
    Prod.Lex.toLex_le_toLex]
  dsimp only
  omega

/-- With what a candidate sends, the vote check is the order by last term and length, and
so it is total and transitive. -/
theorem vote_check_order :
    (∀ c, Presentable c → c.broadcastRequestVote =
        c.forOthers fun m i => m.send i (.requestVoteReq c.voteReq)) ∧
      (∀ v c, Presentable v → Presentable c → (Accepts v c ↔ rank v ≤ rank c)) ∧
      (∀ a b, Presentable a → Presentable b → Accepts a b ∨ Accepts b a) ∧
      ∀ a b c, Presentable a → Presentable b → Presentable c →
        Accepts a b → Accepts b c → Accepts a c := by
  refine ⟨fun c hc => hc.broadcastRequestVote, fun v c hv hc => hv.accepts_iff hc,
    fun a b ha hb => ?_, fun a b c ha hb hc hab hbc => ?_⟩
  · rw [ha.accepts_iff hb, hb.accepts_iff ha]
    exact le_total _ _
  · rw [ha.accepts_iff hb] at hab
    rw [hb.accepts_iff hc] at hbc
    rw [ha.accepts_iff hc]
    exact hab.trans hbc

/-- An empty log, announced with index 2 ^ 32 - 1, and one of two entries. -/
theorem vote_check_order_empty :
    let empty : Node Disk := raftCreate (.plain 3 0) .init
    let longer : Node Disk := raftCreate (.plain 3 1) ⟨2, pfNoVote, [⟨1, 9, 0, 5⟩, ⟨2, 9, 1, 6⟩]⟩
    Accepts empty longer ∧ ¬Accepts longer empty := by
  intro empty longer
  have hempty : Presentable empty := ⟨by decide, by decide⟩
  have hlonger : Presentable longer := ⟨by decide, by decide⟩
  obtain ⟨-, horder, -, -⟩ := vote_check_order
  rw [horder _ _ hempty hlonger, horder _ _ hlonger hempty]
  exact ⟨by decide, by decide⟩

end Node

end GeoRaft
