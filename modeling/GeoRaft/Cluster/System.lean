import Mathlib.Logic.Function.Basic
import GeoRaft.Node.Raft

/-!
A cluster of nodes as a transition system.

The *world* is what outlives a process: the disks, the packets ever handed to
the transport with those that are gone, and a history of what happened. A node
that is idle takes a packet, a timeout or a client request and runs its handler;
the effects of the handler then reach the world one at a time, in any
interleaving with the other nodes. A node can crash at any point, which drops
what is left of its script and restarts it from its disk.
-/

namespace GeoRaft

/-- An event with the node it happened at, the incarnation of the process and
the disk of the node at that moment. -/
structure Record where
  node : ℕ
  inc : ℕ
  event : Event
  disk : Disk
  deriving DecidableEq, Repr

structure World where
  disk : ℕ → Disk
  /-- How many times the process of a node was restarted. -/
  inc : ℕ → ℕ
  /-- Every packet sent so far, in order; a packet is known by its position. -/
  sent : List Pkt
  /-- The packets that were handled or lost. -/
  handled : List ℕ
  history : List Record

namespace World

def record (w : World) (i : ℕ) (event : Event) : World :=
  { w with history := w.history ++ [⟨i, w.inc i, event, w.disk i⟩] }

@[simp] theorem record_disk (w : World) (i : ℕ) (event : Event) :
    (w.record i event).disk = w.disk := rfl

@[simp] theorem record_inc (w : World) (i : ℕ) (event : Event) :
    (w.record i event).inc = w.inc := rfl

@[simp] theorem record_sent (w : World) (i : ℕ) (event : Event) :
    (w.record i event).sent = w.sent := rfl

@[simp] theorem record_handled (w : World) (i : ℕ) (event : Event) :
    (w.record i event).handled = w.handled := rfl

/-- An effect of the process `i` reaches the world. -/
def perform (i : ℕ) (e : Effect Disk) (w : World) : World :=
  match e with
  | .store d none => { w with disk := Function.update w.disk i d }
  | .store d (some event) => ({ w with disk := Function.update w.disk i d } : World).record i event
  | .send pkt => { w with sent := w.sent ++ [pkt] }
  | .note event => w.record i event
  | .exit => w

/-- The packet `k` will not be handled again. -/
def consume (k : ℕ) (w : World) : World := { w with handled := k :: w.handled }

end World

/-- The configurations the nodes of one cluster are started with. A node id must
not be the mark for "has not voted", which bounds the size of the cluster. -/
structure Deployment where
  numNodes : ℕ
  config : ℕ → Config
  id_eq : ∀ i, (config i).id = i
  numNodes_eq : ∀ i, (config i).numNodes = numNodes
  fits : numNodes ≤ pfNoVote

/-- A cluster of `n` nodes with plain timeouts that never crash on purpose. -/
def Deployment.plain (n : ℕ) (fits : n ≤ pfNoVote) : Deployment where
  numNodes := n
  config := .plain n
  id_eq _ := rfl
  numNodes_eq _ := rfl
  fits := fits

structure Cluster where
  world : World
  node : ℕ → Node Disk

inductive Action
  | deliver (k : ℕ) (env : Env)
  | lose (k : ℕ)
  | timeout (i : ℕ) (env : Env)
  | client (i src : ℕ) (req : ProcReq)
  | exec (i : ℕ)
  | crash (i : ℕ)
  deriving DecidableEq, Repr

namespace Action

/-- Node `i` carries the next `k` effects of its script out. -/
def execs (i k : ℕ) : List Action := List.replicate k (.exec i)

end Action

namespace Cluster

def init (D : Deployment) : Cluster where
  world := { disk := fun _ => .init, inc := fun _ => 0, sent := [], handled := [], history := [] }
  node i := raftCreate (D.config i) .init

def idle (c : Cluster) (i : ℕ) : Bool := (c.node i).script.isEmpty

def setNode (c : Cluster) (i : ℕ) (node : Node Disk) : Cluster :=
  { c with node := Function.update c.node i node }

/-- The process of `i` is gone and a new one starts from the disk. -/
def restart (D : Deployment) (c : Cluster) (i : ℕ) : Cluster where
  world := { c.world with inc := Function.update c.world.inc i (c.world.inc i + 1) }
  node := Function.update c.node i (raftCreate (D.config i) (c.world.disk i))

def step (D : Deployment) (c : Cluster) : Action → Option Cluster
  | .deliver k env =>
    match c.world.sent[k]? with
    | none => none
    | some pkt =>
      if k ∉ c.world.handled ∧ pkt.dst < D.numNodes ∧ c.idle pkt.dst then
        some ({ c with world := c.world.consume k }.setNode pkt.dst
          ((c.node pkt.dst).raftHandleRpc env pkt))
      else none
  | .lose k => some { c with world := c.world.consume k }
  | .timeout i env =>
    if i < D.numNodes ∧ c.idle i then some (c.setNode i ((c.node i).raftHandleTimeout env))
    else none
  | .client i src req =>
    if i < D.numNodes ∧ c.idle i then some (c.setNode i ((c.node i).handleProcRequest req src))
    else none
  | .exec i =>
    if i < D.numNodes then
      match (c.node i).script with
      | [] => none
      | .exit :: _ => some (c.restart D i)
      | e :: rest =>
        some ({ c with world := c.world.perform i e }.setNode i { c.node i with script := rest })
    else none
  | .crash i => if i < D.numNodes then some (c.restart D i) else none

/-- What a step of the cluster does to the node `i`. -/
inductive NodeStep (D : Deployment) (c c' : Cluster) (i : ℕ) : Action → Prop
  /-- At most an effect of its script is carried out. -/
  | still {a : Action} (s : List (Effect Disk)) (hn : c'.node i = { c.node i with script := s })
      (hinc : c'.world.inc i = c.world.inc i) : NodeStep D c c' i a
  | restart {a : Action} (d : Disk) (hn : c'.node i = raftCreate (D.config i) d)
      (hinc : c'.world.inc i ≠ c.world.inc i) : NodeStep D c c' i a
  | deliver {k : ℕ} (env : Env) {pkt : Pkt} (hpkt : c.world.sent[k]? = some pkt)
      (hdst : pkt.dst = i) (hi : i < D.numNodes) (hidle : (c.node i).script = [])
      (hn : c'.node i = (c.node i).raftHandleRpc env pkt)
      (hinc : c'.world.inc i = c.world.inc i) : NodeStep D c c' i (.deliver k env)
  | timeout (env : Env) (hi : i < D.numNodes) (hidle : (c.node i).script = [])
      (hn : c'.node i = (c.node i).raftHandleTimeout env)
      (hinc : c'.world.inc i = c.world.inc i) : NodeStep D c c' i (.timeout i env)
  | client (src : ℕ) (req : ProcReq) (hi : i < D.numNodes) (hidle : (c.node i).script = [])
      (hn : c'.node i = (c.node i).handleProcRequest req src)
      (hinc : c'.world.inc i = c.world.inc i) : NodeStep D c c' i (.client i src req)

theorem perform_inc (i : ℕ) (e : Effect Disk) (w : World) : (w.perform i e).inc = w.inc := by
  cases e with
  | store d event => cases event <;> rfl
  | send pkt => rfl
  | note event => rfl
  | exit => rfl

theorem step_node {D : Deployment} {c c' : Cluster} {a : Action} (hs : c.step D a = some c')
    (i : ℕ) : NodeStep D c c' i a := by
  have hrestart : ∀ {a : Action} (j : ℕ), NodeStep D c (c.restart D j) i a := by
    intro a j
    by_cases hij : i = j
    · subst hij
      exact .restart (c.world.disk i) (by simp [restart]) (by simp [restart])
    · exact .still (c.node i).script (by simp [restart, hij]) (by simp [restart, hij])
  -- another node moves
  have hother : ∀ {a : Action} {w : World} {j : ℕ} {n : Node Disk}, i ≠ j → w.inc = c.world.inc →
      NodeStep D c (({ c with world := w } : Cluster).setNode j n) i a := by
    intro a w j n hij hinc
    exact .still (c.node i).script (by simp [setNode, hij]) (by simp [setNode, hinc])
  cases a with
  | deliver k env =>
      simp only [step] at hs
      split at hs
      · cases hs
      · rename_i pkt hpkt
        split at hs
        · rename_i hcond
          obtain rfl := Option.some.inj hs
          by_cases hij : i = pkt.dst
          · subst hij
            exact .deliver env hpkt rfl hcond.2.1 (List.isEmpty_iff.mp hcond.2.2)
              (by simp [setNode]) rfl
          · exact hother hij rfl
        · cases hs
  | lose k =>
      obtain rfl := Option.some.inj hs
      exact .still (c.node i).script rfl rfl
  | timeout j env =>
      simp only [step] at hs
      split at hs
      · rename_i hcond
        obtain rfl := Option.some.inj hs
        by_cases hij : i = j
        · subst hij
          exact .timeout env hcond.1 (List.isEmpty_iff.mp hcond.2) (by simp [setNode]) rfl
        · exact hother hij rfl
      · cases hs
  | client j src req =>
      simp only [step] at hs
      split at hs
      · rename_i hcond
        obtain rfl := Option.some.inj hs
        by_cases hij : i = j
        · subst hij
          exact .client src req hcond.1 (List.isEmpty_iff.mp hcond.2) (by simp [setNode]) rfl
        · exact hother hij rfl
      · cases hs
  | exec j =>
      simp only [step] at hs
      split at hs
      · split at hs
        · cases hs
        · obtain rfl := Option.some.inj hs
          exact hrestart j
        · rename_i e rest _ _
          obtain rfl := Option.some.inj hs
          by_cases hij : i = j
          · subst hij
            exact .still rest (by simp [setNode]) (by simp [setNode, perform_inc])
          · exact hother hij (perform_inc j e c.world)
      · cases hs
  | crash j =>
      simp only [step] at hs
      split at hs
      · obtain rfl := Option.some.inj hs
        exact hrestart j
      · cases hs

/-- Nothing that happened is forgotten. -/
theorem step_history {D : Deployment} {c c' : Cluster} {a : Action} (hs : c.step D a = some c') :
    c.world.history <+: c'.world.history := by
  have hperform : ∀ (i : ℕ) (e : Effect Disk), c.world.history <+: (c.world.perform i e).history := by
    intro i e
    cases e with
    | store d event =>
        cases event with
        | none => exact List.prefix_rfl
        | some event => exact List.prefix_append _ _
    | send pkt => exact List.prefix_rfl
    | note event => exact List.prefix_append _ _
    | exit => exact List.prefix_rfl
  cases a with
  | deliver k env =>
      simp only [step] at hs
      split at hs
      · cases hs
      · split at hs
        · obtain rfl := Option.some.inj hs
          exact List.prefix_rfl
        · cases hs
  | lose k =>
      obtain rfl := Option.some.inj hs
      exact List.prefix_rfl
  | timeout j env =>
      simp only [step] at hs
      split at hs
      · obtain rfl := Option.some.inj hs
        exact List.prefix_rfl
      · cases hs
  | client j src req =>
      simp only [step] at hs
      split at hs
      · obtain rfl := Option.some.inj hs
        exact List.prefix_rfl
      · cases hs
  | exec j =>
      simp only [step] at hs
      split at hs
      · split at hs
        · cases hs
        · obtain rfl := Option.some.inj hs
          exact List.prefix_rfl
        · rename_i e rest _ _
          obtain rfl := Option.some.inj hs
          exact hperform j e
      · cases hs
  | crash j =>
      simp only [step] at hs
      split at hs
      · obtain rfl := Option.some.inj hs
        exact List.prefix_rfl
      · cases hs

/-- The states of the runs all of whose steps satisfy `ok`. -/
inductive Run (D : Deployment) (ok : Cluster → Action → Cluster → Prop) : Cluster → Prop
  | init : Run D ok (init D)
  | step {c c' : Cluster} {a : Action} (hc : Run D ok c) (hs : c.step D a = some c')
      (hok : ok c a c') : Run D ok c'

/-- The storage calls of the nodes succeed: no term and no length of a log is so
large that `get` or `length` returns a negative code. -/
def StorageOk (D : Deployment) (c : Cluster) : Prop :=
  ∀ i < D.numNodes, (c.node i).store.currentTerm < 2 ^ 31 ∧ (c.node i).store.log.length < 2 ^ 31

instance (D : Deployment) (c : Cluster) : Decidable (StorageOk D c) :=
  inferInstanceAs (Decidable (∀ i < D.numNodes, _))

/-- What any run with reliable storage reaches. -/
abbrev Reachable (D : Deployment) : Cluster → Prop := Run D fun _ _ c' => StorageOk D c'

theorem Run.mono {D : Deployment} {ok ok' : Cluster → Action → Cluster → Prop}
    (h : ∀ c a c', ok c a c' → ok' c a c') {c : Cluster} (hc : Run D ok c) : Run D ok' c := by
  induction hc with
  | init => exact .init
  | step _ hs hok ih => exact .step ih hs (h _ _ _ hok)

/-- An invariant of every run: it holds at the start and every step keeps it. -/
theorem Run.invariant {D : Deployment} {ok : Cluster → Action → Cluster → Prop}
    {P : Cluster → Prop} (h0 : P (Cluster.init D))
    (hstep : ∀ {c c' a}, Run D ok c → P c → c.step D a = some c' → ok c a c' → P c')
    {c : Cluster} (hc : Run D ok c) : P c := by
  induction hc with
  | init => exact h0
  | step hc hs hok ih => exact hstep hc ih hs hok

theorem Run.storageOk {D : Deployment} {ok : Cluster → Action → Cluster → Prop}
    (h : ∀ {c a c'}, ok c a c' → StorageOk D c') {c : Cluster} (hc : Run D ok c) :
    StorageOk D c := by
  cases hc with
  | init =>
      intro i _
      simp [Cluster.init, raftCreate, Disk.init]
  | step _ _ hok => exact h hok

/-- Carry a list of actions out as long as `ok` allows it, for the runs that are
given one by one. -/
def runActions (D : Deployment) (ok : Cluster → Action → Cluster → Prop)
    [∀ c a c', Decidable (ok c a c')] : Cluster → List Action → Option Cluster
  | c, [] => some c
  | c, a :: as => (c.step D a).bind fun c' => if ok c a c' then runActions D ok c' as else none

theorem Run.of_actions {D : Deployment} {ok : Cluster → Action → Cluster → Prop}
    [∀ c a c', Decidable (ok c a c')] {c c' : Cluster} {as : List Action} (hc : Run D ok c)
    (h : runActions D ok c as = some c') : Run D ok c' := by
  induction as generalizing c with
  | nil => exact (Option.some.inj h) ▸ hc
  | cons a as ih =>
      obtain ⟨d, hd, h⟩ := Option.bind_eq_some_iff.mp h
      split at h
      · rename_i hok
        exact ih (.step hc hd hok) h
      · cases h

/-- A run with a property, by carrying its actions out. -/
theorem Run.exists_of_actions {D : Deployment} {ok : Cluster → Action → Cluster → Prop}
    [∀ c a c', Decidable (ok c a c')] {P : Cluster → Prop} [DecidablePred P] (as : List Action)
    (h : (runActions D ok (Cluster.init D) as).any (fun c => decide (P c)) = true) :
    ∃ c, Run D ok c ∧ P c := by
  obtain ⟨c, hc, hP⟩ := (Option.any_eq_true _ _).mp h
  exact ⟨c, .of_actions .init hc, of_decide_eq_true hP⟩

end Cluster

end GeoRaft
