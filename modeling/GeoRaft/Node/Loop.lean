import GeoRaft.Node.Timing
import GeoRaft.Wire.Rpc

/-!
The loop of a node.

A turn of the loop looks at its timer only to tell the transport how long it may
wait. What it does then follows from what the transport returns: a packet is
dispatched, or dropped, whether or not the timer has run out meanwhile, or had
before. The timeout is left for a turn in which no packet arrives.
-/

namespace GeoRaft

open Word

/-! ### `raft-timer.h` -/

def timerExpired (now : ℕ) (timer : RaftTimer) : Prop :=
  HeartbeatTelemetry.elapsed now timer.startUsec ≥ timer.durationUsec

instance (now : ℕ) (timer : RaftTimer) : Decidable (timerExpired now timer) :=
  inferInstanceAs (Decidable (_ ≥ _))

/-- A clock that only goes forward does not take an expiry back. -/
theorem timerExpired_mono {now now' : ℕ} {timer : RaftTimer} (h : timerExpired now timer)
    (hstart : timer.startUsec ≤ now) (hle : now ≤ now') (hfits : now' < 2 ^ 64) :
    timerExpired now' timer := by
  unfold timerExpired HeartbeatTelemetry.elapsed at *
  omega

/-! ### `raft_run` -/

/-- `RPC_SHUTDOWN`. -/
def rpcShutdown : ℕ := 99

/-- What a turn of the loop gets from outside: the clock when it looks at the timer,
what `receive` returns and puts into the packet, the clock when a failure to receive
makes it look again, and what the handler runs on. -/
structure Turn where
  clock : ℕ
  rc : ℤ
  pkt : WirePkt
  clockAfter : ℕ
  env : Env

/-- What came of a turn. -/
inductive Ran
  | rpc
  | timeout
  | nothing
  | stopped
  deriving DecidableEq, Repr

/-- A turn, with the node as it was at its start. -/
structure Pass (σ : Type) where
  node : Node σ
  turn : Turn
  ran : Ran

/-- The timer has run out when the turn starts. -/
def Pass.Due {σ : Type} (p : Pass σ) : Prop := timerExpired p.turn.clock p.node.timer

/-- The message in a packet, if the code is known and the payload long enough for it. -/
def WirePkt.rpc (pkt : WirePkt) : Option Rpc :=
  (RpcCode.ofVal pkt.header.code).bind (Rpc.unpack pkt)

/-- The node is told to stop. -/
def Pass.ShutDown {σ : Type} (p : Pass σ) : Prop :=
  p.turn.rc = 1 ∧ p.turn.pkt.header.code = rpcShutdown

/-- The transport returns a packet, whatever it is worth. -/
def Pass.Fed {σ : Type} (p : Pass σ) : Prop :=
  p.turn.rc = 1 ∧ p.turn.pkt.header.code ≠ rpcShutdown

/-- The packet is one that a handler gets. -/
def Pass.Handed {σ : Type} (p : Pass σ) : Prop :=
  p.Fed ∧ p.turn.pkt.header.dst = p.node.config.id ∧ p.turn.pkt.rpc.isSome

/-- The timeout is handled, unless the node is told to stop. -/
def Pass.Answers {σ : Type} (p : Pass σ) : Prop := p.ran = .timeout ∨ p.ShutDown

/-- Whether the handler ended the process. -/
def Effect.isExit {σ : Type} : Effect σ → Bool
  | .exit => true
  | _ => false

namespace Node

variable {σ : Type} [Storage σ]

/-- `raft_handle_rpc`: unpack and dispatch. -/
def raftHandleWire (env : Env) (node : Node σ) (pkt : WirePkt) : Node σ :=
  match pkt.rpc with
  | none => node
  | some rpc => node.raftHandleRpc env ⟨pkt.header.dst, pkt.header.src, rpc⟩

/-- One turn of the loop. -/
def runTurn (node : Node σ) (turn : Turn) : Ran × Node σ :=
  if turn.rc = 1 then
    if turn.pkt.header.code = rpcShutdown then (.stopped, node)
    else if turn.pkt.header.dst ≠ node.config.id then (.nothing, node)
    else
      (if turn.pkt.rpc.isSome then .rpc else .nothing, node.raftHandleWire turn.env turn.pkt)
  else if turn.rc = 0 ∨ timerExpired turn.clockAfter node.timer then
    (.timeout, node.raftHandleTimeout turn.env)
  else (.stopped, node)

omit [Storage σ] in
/-- The node when the effects of a handler are carried out. -/
def settled (node : Node σ) : Node σ := { node with script := [] }

def raftRun : List Turn → Node σ → List (Pass σ)
  | [], _ => []
  | turn :: turns, node =>
    let next := node.runTurn turn
    ⟨node, turn, next.1⟩ ::
      if next.1 = .stopped ∨ next.2.script.any Effect.isExit then []
      else raftRun turns next.2.settled

/-- `CLOCK_MONOTONIC`: the readings of the clock, in the order they are taken. -/
def Timely : ℕ → List Turn → Prop
  | _, [] => True
  | now, turn :: turns =>
    now ≤ turn.clock ∧ turn.clock ≤ turn.clockAfter ∧ turn.clockAfter ≤ turn.env.now ∧
      turn.env.now < 2 ^ 64 ∧ Timely turn.env.now turns

/-- The timeout is handled in every turn that starts with the timer run out. -/
def Prompt (passes : List (Pass σ)) : Prop := ∀ p ∈ passes, p.Due → p.Answers

/-- A turn with `P` comes, and none with `Q` before it. -/
def Before (P Q : Pass σ → Prop) : List (Pass σ) → Prop
  | [] => False
  | p :: rest => P p ∨ ¬Q p ∧ Before P Q rest

/-- From every turn on that starts with the timer run out, the timeout is handled, and
no packet is dispatched before it. -/
def TimeoutFirst (passes : List (Pass σ)) : Prop :=
  ∀ p rest, p :: rest <:+ passes → p.Due →
    Before Pass.Answers (fun q => q.ran = .rpc) (p :: rest)

variable {node : Node σ} {now : ℕ} {turn : Turn} {turns : List Turn}

theorem runTurn_rpc_iff : (node.runTurn turn).1 = .rpc ↔
    (⟨node, turn, (node.runTurn turn).1⟩ : Pass σ).Handed := by
  unfold Pass.Handed Pass.Fed
  dsimp only
  rw [runTurn]
  split
  · rename_i hrc
    split
    · rename_i hcode
      simp [hcode]
    · rename_i hcode
      split
      · rename_i hdst
        simp [hdst]
      · rename_i hdst
        cases hrpc : turn.pkt.rpc <;> simp [hrc, hcode, not_not.mp hdst]
  · rename_i hrc
    split <;> simp [hrc]

/-- No timeout is handled in a turn that a packet takes. -/
theorem runTurn_answers (h : (⟨node, turn, (node.runTurn turn).1⟩ : Pass σ).Answers) :
    ¬(⟨node, turn, (node.runTurn turn).1⟩ : Pass σ).Fed := by
  rintro ⟨hrc, hcode⟩
  revert h
  unfold Pass.Answers Pass.ShutDown
  dsimp only at hrc hcode ⊢
  rw [runTurn, if_pos hrc, if_neg hcode]
  split
  · simp [hcode]
  · split <;> simp [hcode]

/-- A timer that had run out is looked at if no packet arrives. -/
theorem runTurn_unfed (h : Timely now (turn :: turns)) (hstart : node.timer.startUsec ≤ turn.clock)
    (hdue : timerExpired turn.clock node.timer)
    (hfed : ¬(⟨node, turn, (node.runTurn turn).1⟩ : Pass σ).Fed) :
    (⟨node, turn, (node.runTurn turn).1⟩ : Pass σ).Answers := by
  obtain ⟨-, hafter, hnow, hfits, -⟩ := h
  have hstill : timerExpired turn.clockAfter node.timer :=
    timerExpired_mono hdue hstart hafter (by omega)
  by_cases hrc : turn.rc = 1
  · exact .inr ⟨hrc, by_contra fun hcode => hfed ⟨hrc, hcode⟩⟩
  · refine .inl ?_
    dsimp only
    rw [runTurn, if_neg hrc, if_pos (.inr hstill)]

theorem runTurn_nothing (h : (node.runTurn turn).1 = .nothing) : (node.runTurn turn).2 = node := by
  revert h
  rw [runTurn]
  split
  · split
    · simp
    · split
      · simp
      · cases hrpc : turn.pkt.rpc <;> simp [raftHandleWire, hrpc]
  · split <;> simp

/-- A packet that no handler gets. -/
theorem runTurn_dropped (hfed : (⟨node, turn, (node.runTurn turn).1⟩ : Pass σ).Fed)
    (hdrop : ¬(⟨node, turn, (node.runTurn turn).1⟩ : Pass σ).Handed) :
    (node.runTurn turn).1 = .nothing := by
  obtain ⟨hrc, hcode⟩ := hfed
  dsimp only at hrc hcode
  have hran := mt runTurn_rpc_iff.mp hdrop
  revert hran
  rw [runTurn, if_pos hrc, if_neg hcode]
  split
  · simp
  · split <;> simp

/-- The timer was started by a handler, and so in the past. -/
theorem runTurn_startUsec (hstart : node.timer.startUsec ≤ now) (h : Timely now (turn :: turns)) :
    (node.runTurn turn).2.timer.startUsec ≤ turn.env.now := by
  obtain ⟨h1, h2, h3, -, -⟩ := h
  have hkeep : node.timer.startUsec ≤ turn.env.now := by omega
  have hticks : ∀ {n' : Node σ}, Ticks turn.env node n' → n'.timer.startUsec ≤ turn.env.now := by
    rintro n' ⟨heq | heq, -⟩
    · rw [heq]
      exact hkeep
    · exact heq.le
  rw [runTurn]
  split
  · split
    · exact hkeep
    · split
      · exact hkeep
      · dsimp only
        unfold raftHandleWire
        split
        · exact hkeep
        · exact hticks (raftHandleRpc_ticks turn.env node _)
  · split
    · exact hticks (raftHandleTimeout_ticks turn.env node)
    · exact hkeep

/-- What is left of a run is a run. -/
theorem raftRun_suffix {p : Pass σ} {rest : List (Pass σ)} (h : Timely now turns)
    (hstart : node.timer.startUsec ≤ now) (hsuffix : p :: rest <:+ raftRun turns node) :
    ∃ node' now' turns', p :: rest = raftRun turns' node' ∧ Timely now' turns' ∧
      node'.timer.startUsec ≤ now' := by
  induction turns generalizing node now with
  | nil => exact absurd hsuffix (by simp [raftRun])
  | cons turn turns ih =>
      rw [raftRun] at hsuffix
      rcases List.suffix_cons_iff.mp hsuffix with heq | hrest
      · exact ⟨node, now, turn :: turns, by rw [raftRun, heq], h, hstart⟩
      · split at hrest
        · exact absurd hrest (by simp)
        · exact @ih (node.runTurn turn).2.settled turn.env.now h.2.2.2.2 (runTurn_startUsec hstart h)
            hrest

/-- What holds of every turn of a run, as it is made. -/
theorem pass_of_mem {p : Pass σ} (h : Timely now turns) (hstart : node.timer.startUsec ≤ now)
    (hp : p ∈ raftRun turns node) :
    (p.ran = .rpc ↔ p.Handed) ∧ (p.Answers → ¬p.Fed) ∧ (p.Due → ¬p.Fed → p.Answers) := by
  induction turns generalizing node now with
  | nil => exact absurd hp (by simp [raftRun])
  | cons turn turns ih =>
      rw [raftRun] at hp
      rcases List.mem_cons.mp hp with rfl | hp
      · exact ⟨runTurn_rpc_iff, runTurn_answers, runTurn_unfed h (hstart.trans h.1)⟩
      · split at hp
        · exact absurd hp List.not_mem_nil
        · exact @ih (node.runTurn turn).2.settled turn.env.now h.2.2.2.2 (runTurn_startUsec hstart h) hp

omit [Storage σ] in
theorem Before.imp {P Q P' Q' : Pass σ → Prop} {passes : List (Pass σ)}
    (hp : ∀ p ∈ passes, P p → P' p) (hq : ∀ p ∈ passes, Q' p → Q p) (h : Before P Q passes) :
    Before P' Q' passes := by
  induction passes with
  | nil => exact h
  | cons p rest ih =>
      rcases h with hnow | ⟨hnot, hlater⟩
      · exact .inl (hp p List.mem_cons_self hnow)
      · refine .inr ⟨mt (hq p List.mem_cons_self) hnot, ih (fun q hmem => ?_) (fun q hmem => ?_) hlater⟩
        · exact hp q (List.mem_cons_of_mem p hmem)
        · exact hq q (List.mem_cons_of_mem p hmem)

/-- A timer that has run out stays so as long as the packets that arrive are dropped. -/
theorem answers_of_expired (h : Timely now turns) (hstart : node.timer.startUsec ≤ now)
    (hexpired : timerExpired now node.timer)
    (hpause : Before (fun q => ¬q.Fed) Pass.Handed (raftRun turns node)) :
    Before Pass.Answers (fun q => q.ran = .rpc) (raftRun turns node) := by
  induction turns generalizing node now with
  | nil => exact hpause
  | cons turn turns ih =>
      have hdue : timerExpired turn.clock node.timer :=
        timerExpired_mono hexpired hstart h.1 (by have := h.2; omega)
      rw [raftRun] at hpause ⊢
      by_cases hfed : (⟨node, turn, (node.runTurn turn).1⟩ : Pass σ).Fed
      · rcases hpause with hnot | ⟨hdrop, hlater⟩
        · exact absurd hfed hnot
        have hnothing := runTurn_dropped hfed hdrop
        refine .inr ⟨mt runTurn_rpc_iff.mp hdrop, ?_⟩
        split at hlater
        · exact hlater.elim
        rename_i hgoes
        rw [if_neg hgoes]
        rw [runTurn_nothing hnothing] at hlater ⊢
        obtain ⟨hclock, hafter, hnow, hfits, hrest⟩ := h
        have hstill : timerExpired turn.env.now node.timer :=
          timerExpired_mono hexpired hstart (by omega) hfits
        exact @ih node.settled turn.env.now hrest (show node.timer.startUsec ≤ _ by omega) hstill
          hlater
      · exact .inl (runTurn_unfed h (hstart.trans h.1) hdue hfed)

/-- A due timeout is handled at once just if the transport returns no packet in a turn
that starts with the timer run out. It is handled before any packet is dispatched just
if from every such turn on the transport comes to return none, and the packets it
returns until then are dropped. -/
theorem traffic_does_not_starve (h : Timely now turns) (hstart : node.timer.startUsec ≤ now) :
    (Prompt (raftRun turns node) ↔ ∀ p ∈ raftRun turns node, p.Due → ¬p.Fed) ∧
    (TimeoutFirst (raftRun turns node) ↔
      ∀ p rest, p :: rest <:+ raftRun turns node → p.Due →
        Before (fun q => ¬q.Fed) Pass.Handed (p :: rest)) := by
  refine ⟨⟨?_, ?_⟩, ?_, ?_⟩
  · exact fun hprompt p hp hdue => (pass_of_mem h hstart hp).2.1 (hprompt p hp hdue)
  · exact fun hfree p hp hdue => (pass_of_mem h hstart hp).2.2 hdue (hfree p hp hdue)
  · intro hfirst p rest hsuffix hdue
    refine (hfirst p rest hsuffix hdue).imp (fun q hq => ?_) (fun q hq => ?_)
    · exact (pass_of_mem h hstart (hsuffix.subset hq)).2.1
    · exact (pass_of_mem h hstart (hsuffix.subset hq)).1.mpr
  · intro hpause p rest hsuffix hdue
    have hlater := hpause p rest hsuffix hdue
    obtain ⟨node', now', turns', heq, htimely, hstart'⟩ := raftRun_suffix h hstart hsuffix
    cases turns' with
    | nil => exact absurd heq (by simp [raftRun])
    | cons turn turns' =>
        obtain ⟨hclock, hrest⟩ := htimely
        have hhead := heq
        rw [raftRun] at hhead
        obtain ⟨rfl, -⟩ := List.cons.inj hhead
        have htimely : Timely turn.clock (turn :: turns') := ⟨le_rfl, hrest⟩
        rw [heq] at hlater ⊢
        exact answers_of_expired htimely (hstart'.trans hclock) hdue hlater

/-- A follower whose timer has run out. -/
def overdue : Node Disk := { raftCreate (.plain 3 0) .init with timer := ⟨0, 1000⟩ }

/-- A packet for another node. -/
def strayTurn (clock : ℕ) : Turn :=
  ⟨clock, 1, { WirePkt.blank with header := ⟨1, 2, 0, 4⟩ }, clock, ⟨clock, 0⟩⟩

/-- Nothing arrives. -/
def idleTurn (clock : ℕ) : Turn := ⟨clock, 0, .blank, clock, ⟨clock, 0⟩⟩

/-- The timeout is handled in the turn in which the timer is found to have run out. -/
theorem traffic_does_not_starve_quiet :
    (raftRun [strayTurn 500, idleTurn 2000] overdue).map Pass.ran = [.nothing, .timeout] ∧
      Prompt (raftRun [strayTurn 500, idleTurn 2000] overdue) := by
  have htimely : Timely 0 [strayTurn 500, idleTurn 2000] := by simp [Timely, strayTurn, idleTurn]
  have hran : (raftRun [strayTurn 500, idleTurn 2000] overdue).map Pass.ran =
      [.nothing, .timeout] := by decide +kernel
  refine ⟨hran, (traffic_does_not_starve htimely le_rfl).1.mpr fun p hp hdue hfed => ?_⟩
  rw [raftRun] at hp
  rcases List.mem_cons.mp hp with rfl | hp
  · exact absurd hdue (by decide : ¬timerExpired 500 overdue.timer)
  split at hp
  · exact List.not_mem_nil hp
  rw [raftRun] at hp
  rcases List.mem_cons.mp hp with rfl | hp
  · exact absurd hfed.1 (by decide)
  · split at hp <;> exact List.not_mem_nil hp

/-- A client's command, each time the timer has run out. -/
def busyTurn : Turn :=
  ⟨2000, 1, { WirePkt.blank with header := ⟨0, 9, 12, 4⟩ }, 2000, ⟨2000, 0⟩⟩

/-- The commands are handled, and the timeout never is. -/
theorem timer_starved :
    (raftRun [busyTurn, busyTurn, busyTurn] overdue).map Pass.ran = [.rpc, .rpc, .rpc] ∧
      ¬Prompt (raftRun [busyTurn, busyTurn, busyTurn] overdue) ∧
      ¬TimeoutFirst (raftRun [busyTurn, busyTurn, busyTurn] overdue) := by
  have hran : (overdue.runTurn busyTurn).1 = .rpc := by decide +kernel
  have hdue : timerExpired busyTurn.clock overdue.timer := by decide
  refine ⟨by decide +kernel, fun hprompt => ?_, fun hfirst => ?_⟩
  · rw [raftRun] at hprompt
    rcases hprompt _ List.mem_cons_self hdue with hanswers | ⟨-, hcode⟩
    · rw [hran] at hanswers
      cases hanswers
    · exact absurd hcode (by decide)
  · rw [raftRun] at hfirst
    rcases hfirst _ _ List.suffix_rfl hdue with (hanswers | ⟨-, hcode⟩) | ⟨hrpc, -⟩
    · dsimp only at hanswers
      rw [hran] at hanswers
      cases hanswers
    · exact absurd hcode (by decide)
    · exact hrpc hran

end Node

end GeoRaft
