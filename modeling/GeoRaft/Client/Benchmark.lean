import Mathlib.Data.List.Nodup
import GeoRaft.Wire.Codec

/-!
The loop of the benchmark client.

A turn of the loop sends one request, waits a second for a packet, and writes down what
became of the request. Any packet that comes in during the wait is taken for the answer.
-/

namespace GeoRaft

open Word

/-- `CLIENT_ID`. -/
def clientId : ℕ := 999

/-- What `main` carries from turn to turn. -/
structure BenchmarkClient where
  numPeers : ℕ
  seqno : ℕ
  currentLeader : ℕ
  lastSendStartUsec : ℕ

/-- What a turn gets from outside: the packet as it lies on the stack, the clock at the
send, the result of the send, the result of the wait with the packet and the clock after
it, and the next value of `rand`. -/
structure ClientTurn where
  pkt : WirePkt
  sentUsec : ℕ
  sendRc : ℤ
  ret : ℤ
  resPkt : WirePkt
  recvTime : ℕ
  draw : ℕ

inductive ClientResult
  | ok
  | notLeader
  | unpackError
  | timeout
  | recvError
  deriving DecidableEq, Repr

/-- A line of `client.csv`, without the latency that is computed from it. -/
structure ClientRecord where
  seqNo : ℕ
  sentUsec : ℕ
  receivedUsec : ℕ
  result : ClientResult
  targetNode : ℕ
  leaderHint : ℕ
  term : ℤ
  deriving DecidableEq, Repr

/-- A turn that is over: the number it used, what it met and the line it wrote, if it
came that far. -/
structure Exchange where
  seqno : ℕ
  turn : ClientTurn
  record : Option ClientRecord

/-- A reply that says that the request with this number succeeded. -/
def ClientTurn.Hears (t : ClientTurn) (s : ℕ) : Prop :=
  t.sendRc = 0 ∧ t.ret > 0 ∧ t.resPkt.header.code = RpcCode.respProc.val ∧
    ∃ res, rpcUnpackProcRes t.resPkt = some res ∧ res.success ≠ 0 ∧ res.cmdSeqno = s

theorem ClientTurn.Hears.eq {t : ClientTurn} {s s' : ℕ} (h : t.Hears s) (h' : t.Hears s') :
    s = s' := by
  obtain ⟨-, -, -, res, hres, -, rfl⟩ := h
  obtain ⟨-, -, -, res', hres', -, rfl⟩ := h'
  rw [hres] at hres'
  rw [Option.some.inj hres']

namespace BenchmarkClient

/-- What a turn makes of the wait for the answer to a request. -/
def awaitReply (c : BenchmarkClient) (t : ClientTurn) (seqNo targetNode : ℕ) :
    ClientRecord × BenchmarkClient :=
  let record := fun receivedUsec result leaderHint term =>
    ({ seqNo, sentUsec := t.sentUsec, receivedUsec, result, targetNode, leaderHint, term } :
      ClientRecord)
  let elsewhere := { c with currentLeader := t.draw % c.numPeers }
  if t.ret > 0 ∧ t.resPkt.header.code = RpcCode.respProc.val then
    match rpcUnpackProcRes t.resPkt with
    | some res =>
      if res.success ≠ 0 then (record t.recvTime .ok res.leaderHint (i32 res.term), c)
      else
        (record 0 .notLeader res.leaderHint (i32 res.term),
          if res.leaderHint < c.numPeers then { c with currentLeader := res.leaderHint }
          else elsewhere)
    | none => (record 0 .unpackError 4294967295 (-1), c)
  else if t.ret = 0 then (record 0 .timeout 4294967295 (-1), elsewhere)
  else (record 0 .recvError 4294967295 (-1), elsewhere)

/-- One turn of the loop. -/
def runTurn (c : BenchmarkClient) (t : ClientTurn) : Option ClientRecord × BenchmarkClient :=
  let req : ProcReq := { clientId := clientId, cmdSeqno := c.seqno, cmd := 72 }
  let c := { c with seqno := u32 (c.seqno + 1) }
  let packed := rpcPackProcReq t.pkt c.currentLeader clientId req
  if packed.1 ≠ 0 then (none, c)
  else
    let c := { c with lastSendStartUsec := t.sentUsec }
    if t.sendRc ≠ 0 then (none, { c with currentLeader := t.draw % c.numPeers })
    else
      let awaited := c.awaitReply t req.cmdSeqno packed.2.header.dst
      (some awaited.1, awaited.2)

def run : List ClientTurn → BenchmarkClient → List Exchange
  | [], _ => []
  | t :: ts, c => ⟨c.seqno, t, (c.runTurn t).1⟩ :: run ts (c.runTurn t).2

variable {c : BenchmarkClient} {t : ClientTurn} {ts : List ClientTurn}

theorem awaitReply_seqNo (c : BenchmarkClient) (t : ClientTurn) (seqNo targetNode : ℕ) :
    (c.awaitReply t seqNo targetNode).1.seqNo = seqNo := by
  unfold awaitReply
  dsimp only
  split
  · split
    · split <;> rfl
    · rfl
  · split <;> rfl

theorem awaitReply_seqno (c : BenchmarkClient) (t : ClientTurn) (seqNo targetNode : ℕ) :
    (c.awaitReply t seqNo targetNode).2.seqno = c.seqno := by
  unfold awaitReply
  dsimp only
  split
  · split
    · split
      · rfl
      · split <;> rfl
    · rfl
  · split <;> rfl

/-- It writes `OK` for whatever success it hears of. -/
theorem awaitReply_ok_iff {seqNo targetNode : ℕ} (hsend : t.sendRc = 0) :
    (c.awaitReply t seqNo targetNode).1.result = .ok ↔ ∃ s, t.Hears s := by
  unfold awaitReply ClientTurn.Hears
  dsimp only
  split
  · rename_i hcode
    split
    · rename_i res hres
      split
      · rename_i hsuccess
        exact iff_of_true rfl ⟨_, hsend, hcode.1, hcode.2, res, hres, hsuccess, rfl⟩
      · rename_i hfailure
        refine iff_of_false (by simp) ?_
        rintro ⟨s, -, -, -, res', hres', hsuccess, -⟩
        rw [hres] at hres'
        rw [← Option.some.inj hres'] at hsuccess
        exact hfailure hsuccess
    · rename_i hnone
      refine iff_of_false (by simp) ?_
      rintro ⟨s, -, -, -, res', hres', -⟩
      rw [hnone] at hres'
      exact absurd hres' (by simp)
  · rename_i hcode
    refine iff_of_false (by split <;> simp) ?_
    rintro ⟨s, -, hret, hresp, -⟩
    exact hcode ⟨hret, hresp⟩

theorem runTurn_seqno (c : BenchmarkClient) (t : ClientTurn) :
    (c.runTurn t).2.seqno = u32 (c.seqno + 1) := by
  unfold runTurn
  dsimp only
  split
  · rfl
  split
  · rfl
  · exact awaitReply_seqno _ _ _ _

theorem runTurn_seqNo {r : ClientRecord} (h : (c.runTurn t).1 = some r) : r.seqNo = c.seqno := by
  unfold runTurn at h
  dsimp only at h
  split at h
  · exact absurd h (by simp)
  split at h
  · exact absurd h (by simp)
  · obtain rfl := Option.some.inj h
    exact awaitReply_seqNo _ _ _ _

/-- A request for a command always fits into a packet. -/
theorem rpcPackProcReq_fst (pkt : WirePkt) (dst src : ℕ) (req : ProcReq) :
    (rpcPackProcReq pkt dst src req).1 = 0 := rfl

theorem runTurn_ok_iff :
    (∃ r, (c.runTurn t).1 = some r ∧ r.result = .ok) ↔ ∃ s, t.Hears s := by
  unfold runTurn
  dsimp only
  rw [if_neg (by rw [rpcPackProcReq_fst]; simp)]
  split
  · rename_i hsend
    refine iff_of_false (by simp) ?_
    rintro ⟨s, hsent, -⟩
    exact hsend hsent
  · rename_i hsend
    simp only [Option.some.injEq, exists_eq_left']
    exact awaitReply_ok_iff (not_not.mp hsend)

/-! ### Whole runs -/

/-- Every exchange of a run is a turn of the client with its number. -/
theorem exists_of_mem_run {x : Exchange} (hx : x ∈ c.run ts) :
    ∃ c' : BenchmarkClient, c'.seqno = x.seqno ∧ (c'.runTurn x.turn).1 = x.record := by
  induction ts generalizing c with
  | nil => exact absurd hx List.not_mem_nil
  | cons t ts ih =>
      rcases List.mem_cons.mp hx with rfl | hx
      · exact ⟨c, rfl, rfl⟩
      · exact ih hx

/-- An `OK` for a request stands for a success reply, and a success reply for an `OK`. -/
theorem ok_iff_of_mem_run {x : Exchange} (hx : x ∈ c.run ts) :
    (∃ r, x.record = some r ∧ r.seqNo = x.seqno ∧ r.result = .ok) ↔ ∃ s, x.turn.Hears s := by
  obtain ⟨c', hseqno, hrecord⟩ := exists_of_mem_run hx
  rw [← hrecord, ← hseqno, ← runTurn_ok_iff (c := c')]
  constructor
  · rintro ⟨r, hr, -, hok⟩
    exact ⟨r, hr, hok⟩
  · rintro ⟨r, hr, hok⟩
    exact ⟨r, hr, runTurn_seqNo hr, hok⟩

theorem record_seqNo_of_mem_run {x : Exchange} {r : ClientRecord} (hx : x ∈ c.run ts)
    (hr : x.record = some r) : r.seqNo = x.seqno := by
  obtain ⟨c', hseqno, hrecord⟩ := exists_of_mem_run hx
  rw [← hseqno]
  exact runTurn_seqNo (hrecord.trans hr)

theorem run_seqnos (h : c.seqno < 2 ^ 32) :
    (c.run ts).map Exchange.seqno = (List.range ts.length).map fun k => (c.seqno + k) % 2 ^ 32 := by
  induction ts generalizing c with
  | nil => rfl
  | cons t ts ih =>
      have hnext : (c.runTurn t).2.seqno = (c.seqno + 1) % 2 ^ 32 := by
        rw [runTurn_seqno, u32]
        omega
      rw [run, List.map_cons, ih (by rw [hnext]; exact Nat.mod_lt _ (Nat.two_pow_pos 32)),
        List.length_cons, List.range_succ_eq_map, List.map_cons, List.map_map]
      congr 1
      · exact (Nat.mod_eq_of_lt h).symm
      · refine List.map_congr_left fun k _ => ?_
        show ((c.runTurn t).2.seqno + k) % 2 ^ 32 = (c.seqno + (k + 1)) % 2 ^ 32
        rw [hnext]
        omega

/-- The numbers come around again only after all of them. -/
theorem run_seqnos_nodup (h : c.seqno < 2 ^ 32) (hlen : ts.length ≤ 2 ^ 32) :
    ((c.run ts).map Exchange.seqno).Nodup := by
  rw [run_seqnos h]
  refine List.Nodup.map_on ?_ List.nodup_range
  intro j hj k hk heq
  rw [List.mem_range] at hj hk
  omega

/-- `OK` is written for a request only behind a success reply to it. -/
def CreditsRight (xs : List Exchange) : Prop :=
  ∀ pre x post r, xs = pre ++ x :: post → x.record = some r → r.result = .ok →
    ∃ y ∈ pre ++ [x], y.turn.Hears r.seqNo

/-- No success reply comes in while the client waits for the answer to another request. -/
def InTime (xs : List Exchange) : Prop := ∀ x ∈ xs, ∀ s, x.turn.Hears s → s = x.seqno

/-- Nobody replies to a request that has not been sent. -/
def Causal (xs : List Exchange) : Prop :=
  ∀ pre x post s, xs = pre ++ x :: post → x.turn.Hears s → ∃ y ∈ pre ++ [x], y.seqno = s

theorem creditsRight_of_inTime (h : InTime (c.run ts)) : CreditsRight (c.run ts) := by
  intro pre x post r hxs hr hok
  have hx : x ∈ c.run ts := by
    rw [hxs]
    simp
  have hseqno := record_seqNo_of_mem_run hx hr
  obtain ⟨s, hs⟩ := (ok_iff_of_mem_run hx).mp ⟨r, hr, hseqno, hok⟩
  refine ⟨x, by simp, ?_⟩
  rwa [hseqno, ← h x hx s hs]

theorem inTime_of_creditsRight (hc : c.seqno < 2 ^ 32) (hlen : ts.length ≤ 2 ^ 32)
    (hcausal : Causal (c.run ts)) (h : CreditsRight (c.run ts)) : InTime (c.run ts) := by
  intro x hx s hs
  obtain ⟨pre, post, hxs⟩ := List.append_of_mem hx
  obtain ⟨r, hr, hseqno, hok⟩ := (ok_iff_of_mem_run hx).mpr ⟨s, hs⟩
  obtain ⟨y, hy, hheard⟩ := h pre x post r hxs hr hok
  rw [hseqno] at hheard
  rcases List.mem_append.mp hy with hbefore | hsame
  · -- a reply to `x` in an earlier turn, when its number had not been used
    obtain ⟨a, b, rfl⟩ := List.append_of_mem hbefore
    rw [List.append_assoc, List.cons_append] at hxs
    obtain ⟨z, hz, hzx⟩ := hcausal a y (b ++ x :: post) _ hxs hheard
    have hnodup := run_seqnos_nodup hc hlen
    have hsplit : a ++ y :: (b ++ x :: post) = (a ++ [y]) ++ (b ++ x :: post) := by simp
    rw [hxs, hsplit, List.map_append] at hnodup
    have hdisjoint := List.disjoint_of_nodup_append hnodup
    have hxmem : x.seqno ∈ (b ++ x :: post).map Exchange.seqno := by simp
    rw [← hzx] at hxmem
    exact absurd hxmem (hdisjoint (List.mem_map_of_mem hz))
  · rw [List.mem_singleton.mp hsame] at hheard
    exact hs.eq hheard

/-- The client credits the right request in every run in which a success reply comes in
time, and, as long as replies follow requests and no number is used twice, in no other. -/
theorem client_credits_right (c : BenchmarkClient) (ts : List ClientTurn) :
    (InTime (c.run ts) → CreditsRight (c.run ts)) ∧
      (c.seqno < 2 ^ 32 → ts.length ≤ 2 ^ 32 → Causal (c.run ts) → CreditsRight (c.run ts) →
        InTime (c.run ts)) :=
  ⟨creditsRight_of_inTime, inTime_of_creditsRight⟩

/-- A packet with the reply to a request. -/
def replyTo (s success : ℕ) : WirePkt := (rpcPackProcRes .blank 3 0 ⟨clientId, s, success, 0, 1⟩).2

theorem hears_replyTo_iff {t : ClientTurn} {s s' success : ℕ} (hs : s < 2 ^ 32)
    (hsuccess : success < 2 ^ 8) (ht : t.resPkt = replyTo s success) :
    t.Hears s' ↔ t.sendRc = 0 ∧ t.ret > 0 ∧ success ≠ 0 ∧ s' = s := by
  have hfit : (Rpc.procRes ⟨clientId, s, success, 0, 1⟩).Fits :=
    ⟨show 999 < 2 ^ 32 by decide, hs, hsuccess, by simp, by simp⟩
  have hback : (rpcUnpackProcRes (replyTo s success)).map Rpc.procRes =
      some (.procRes ⟨clientId, s, success, 0, 1⟩) :=
    Rpc.unpack_pack .blank 3 0 hfit (Nat.zero_le _)
  obtain ⟨res, hres, heq⟩ := Option.map_eq_some_iff.mp hback
  obtain rfl := Rpc.procRes.inj heq
  have hunpack : rpcUnpackProcRes t.resPkt = some ⟨clientId, s, success, 0, 1⟩ := by
    rw [ht]
    exact hres
  have hcode : t.resPkt.header.code = RpcCode.respProc.val := by
    rw [ht]
    rfl
  rw [ClientTurn.Hears, hunpack]
  simp [hcode, eq_comm]

/-- Nothing comes within a second. -/
def lostTurn : ClientTurn := ⟨.blank, 1000, 0, 0, .blank, 1001000, 0⟩

/-- The reply to request 100 comes 200 microseconds after the next one is sent. -/
def lateTurn : ClientTurn := ⟨.blank, 1011000, 0, 1, replyTo 100 1, 1011200, 0⟩

def benchmark : BenchmarkClient := ⟨3, 100, 0, 0⟩

/-- Request 101 is recorded as done in 200 microseconds, on the word of the reply to 100. -/
theorem client_credits_wrong : ¬CreditsRight (benchmark.run [lostTurn, lateTurn]) := by
  intro h
  have hlate : lateTurn.Hears 100 :=
    (hears_replyTo_iff (by decide) (by decide) rfl).mpr ⟨rfl, by decide, by decide, rfl⟩
  have hnext : (benchmark.runTurn lostTurn).2.seqno = 101 := by decide +kernel
  obtain ⟨r, hr, hok⟩ :=
    (runTurn_ok_iff (c := (benchmark.runTurn lostTurn).2)).mpr ⟨100, hlate⟩
  have hseqNo : r.seqNo = 101 := (runTurn_seqNo hr).trans hnext
  obtain ⟨y, hy, hheard⟩ := h [_] _ [] r rfl hr hok
  rw [hseqNo] at hheard
  simp only [List.cons_append, List.nil_append, List.mem_cons, List.not_mem_nil, or_false] at hy
  rcases hy with rfl | rfl
  · exact absurd hheard.2.1 (by decide)
  · exact absurd (hlate.eq hheard) (by decide)

/-- The reply comes 200 microseconds after the request is sent. -/
def replyTurn (sentUsec s success : ℕ) : ClientTurn :=
  ⟨.blank, sentUsec, 0, 1, replyTo s success, sentUsec + 200, 0⟩

/-- A request that is served, one that gets no answer in time, one during which the refusal of
the one before comes in late, and one that is served again. -/
def hastyTurns : List ClientTurn :=
  [replyTurn 1000 100 1, lostTurn, replyTurn 1011000 101 0, replyTurn 1021000 103 1]

theorem client_credits_right_late : CreditsRight (benchmark.run hastyTurns) ∧
    (benchmark.run hastyTurns).map (fun x => x.record.map ClientRecord.result) =
      [some .ok, some .timeout, some .notLeader, some .ok] := by
  refine ⟨(client_credits_right _ _).1 fun x hx s hs => ?_, by decide +kernel⟩
  have hseqnos : (benchmark.run hastyTurns).map Exchange.seqno = [100, 101, 102, 103] := by
    decide +kernel
  simp only [hastyTurns, run, List.map_cons, List.map_nil, List.cons.injEq, and_true] at hx hseqnos
  obtain ⟨h0, -, -, h3⟩ := hseqnos
  simp only [List.mem_cons, List.not_mem_nil, or_false] at hx
  rcases hx with rfl | rfl | rfl | rfl
  · exact ((hears_replyTo_iff (by decide) (by decide) rfl).mp hs).2.2.2.trans h0.symm
  · exact absurd hs.2.1 (by decide)
  · exact absurd rfl ((hears_replyTo_iff (by decide) (by decide) rfl).mp hs).2.2.1
  · exact ((hears_replyTo_iff (by decide) (by decide) rfl).mp hs).2.2.2.trans h3.symm

end BenchmarkClient

end GeoRaft
