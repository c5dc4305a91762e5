import GeoRaft.Cluster.Packets
import GeoRaft.Cluster.Safety
import GeoRaft.Persist.Process

/-!
A cluster whose nodes are on files.

The steps are those of the cluster on disks, but an effect on the storage is a few system calls
on three files, and a process can end between any two of them, those of the next start
included. Every state that such a cluster reaches is one that the cluster on disks reaches, with
the same packets, the same memory of every node, and disks that the files stand for. What
holds of all runs on disks therefore holds of all runs on files.
-/

namespace GeoRaft

open Word Files

/-- An event of a process, without the disk that goes with it in a `Record`. -/
structure Occurrence where
  node : ℕ
  inc : ℕ
  event : Event
  deriving DecidableEq, Repr

def Record.occurrence (r : Record) : Occurrence := ⟨r.node, r.inc, r.event⟩

structure FileWorld where
  /-- The contexts of the storage of each process, as its last system call left them. -/
  store : ℕ → FileStore
  inc : ℕ → ℕ
  sent : List Pkt
  handled : List ℕ
  history : List Occurrence

namespace FileWorld

def record (w : FileWorld) (i : ℕ) (event : Event) : FileWorld :=
  { w with history := w.history ++ [⟨i, w.inc i, event⟩] }

def perform (i : ℕ) (e : Effect FileStore) (w : FileWorld) : FileWorld :=
  match e with
  | .store s none => { w with store := Function.update w.store i s }
  | .store s (some event) =>
    ({ w with store := Function.update w.store i s } : FileWorld).record i event
  | .send pkt => { w with sent := w.sent ++ [pkt] }
  | .note event => w.record i event
  | .exit => w

def consume (k : ℕ) (w : FileWorld) : FileWorld := { w with handled := k :: w.handled }

end FileWorld

structure FileCluster where
  world : FileWorld
  node : ℕ → Node FileStore

inductive FileAction
  | deliver (k : ℕ) (env : Env)
  | lose (k : ℕ)
  | timeout (i : ℕ) (env : Env)
  | client (i src : ℕ) (req : ProcReq)
  | exec (i : ℕ)
  /-- The process ends after `j` of the system calls of its next effect, and the starts of
  the next ones after so many each, until one does not. -/
  | crash (i j : ℕ) (boots : List ℕ)

namespace FileCluster

/-- Every process has been started where there were no files. -/
def init (D : Deployment) : FileCluster where
  world := {
    store := fun _ => .boot ⟨fun _ => [], fun _ => []⟩
    inc := fun _ => 0
    sent := []
    handled := []
    history := [] }
  node i := raftCreate (D.config i) (.boot ⟨fun _ => [], fun _ => []⟩)

def idle (c : FileCluster) (i : ℕ) : Bool := (c.node i).script.isEmpty

def setNode (c : FileCluster) (i : ℕ) (node : Node FileStore) : FileCluster :=
  { c with node := Function.update c.node i node }

/-- The process of `i` is gone and a new one starts on these files. -/
def restart (D : Deployment) (c : FileCluster) (i : ℕ) (files : NodeFiles) : FileCluster where
  world := { c.world with
    store := Function.update c.world.store i (.boot files)
    inc := Function.update c.world.inc i (c.world.inc i + 1) }
  node := Function.update c.node i (raftCreate (D.config i) (.boot files))

def step (D : Deployment) (c : FileCluster) : FileAction → Option FileCluster
  | .deliver k env =>
    match c.world.sent[k]? with
    | none => none
    | some pkt =>
      if k ∉ c.world.handled ∧ pkt.dst < D.numNodes ∧ c.idle pkt.dst then
        some ({ c with world := c.world.consume k }.setNode pkt.dst
          ((c.node pkt.dst).raftHandleRpc env pkt))
      else none
  | .lose k => some { c with world := c.world.consume k }
  | .timeout i env =>
    if i < D.numNodes ∧ c.idle i then some (c.setNode i ((c.node i).raftHandleTimeout env))
    else none
  | .client i src req =>
    if i < D.numNodes ∧ c.idle i then some (c.setNode i ((c.node i).handleProcRequest req src))
    else none
  | .exec i =>
    if i < D.numNodes then
      match (c.node i).script with
      | [] => none
      | .exit :: _ => some (c.restart D i (c.world.store i).files)
      | e :: rest =>
        some ({ c with world := c.world.perform i e }.setNode i { c.node i with script := rest })
    else none
  | .crash i j boots =>
    if i < D.numNodes then
      some (c.restart D i (boots.foldl NodeFiles.bootCut
        (Machine.cutFiles (c.world.store i) (c.node i).script 0 j)))
    else none

end FileCluster

/-- The values of the packet that a client sends are of their types. -/
def FileAction.Fits : FileAction → Prop
  | .client _ src req => src < 2 ^ 32 ∧ (Rpc.procReq req).Fits
  | _ => True

namespace FileCluster

/-- The storage calls of the nodes succeed: no term and no length of a log is so large that
`get` or `length` returns a negative code, and the logs have room for a request. -/
def StorageOk (D : Deployment) (c : FileCluster) : Prop :=
  ∀ i < D.numNodes, 0 ≤ (c.node i).get .currentTerm ∧ 0 ≤ (c.node i).logLength ∧
    (c.node i).logLength + maxAppendEntriesN < 2 ^ 31

/-- What the cluster on files reaches. -/
inductive Reachable (D : Deployment) : FileCluster → Prop
  | init : Reachable D (init D)
  | step {c c' : FileCluster} {a : FileAction} (hc : Reachable D c) (hs : c.step D a = some c')
      (ha : a.Fits) (hok : StorageOk D c') : Reachable D c'

/-- What is the same in a cluster on files and one on disks. -/
structure Follows (D : Deployment) (fc : FileCluster) (c : Cluster) : Prop where
  sent : fc.world.sent = c.world.sent
  handled : fc.world.handled = c.world.handled
  inc : fc.world.inc = c.world.inc
  /-- A process can end when a call has taken effect and not returned. -/
  history : fc.world.history.Sublist (c.world.history.map Record.occurrence)
  files : ∀ i < D.numNodes, (fc.world.store i).Represents (c.world.disk i)
  node : ∀ i < D.numNodes, Node.Alike FileStore.onDisk (fc.world.store i, c.world.disk i)
    (fc.node i) (c.node i)

variable {D : Deployment} {fc fc' : FileCluster} {c : Cluster}

theorem follows_init (D : Deployment) : Follows D (init D) (Cluster.init D) where
  sent := rfl
  handled := rfl
  inc := rfl
  history := List.Sublist.refl _
  files _ _ := FileStore.boot_represents FileStore.none_holds
  node _ hi := Machine.alike_raftCreate (FileStore.boot_represents FileStore.none_holds)
    (Cluster.config_id_lt hi)

/-- A handler has run on both. -/
theorem Follows.setNode (h : Follows D fc c) {i : ℕ} {n : Node FileStore} {m : Node Disk}
    (hn : Node.Alike FileStore.onDisk (fc.world.store i, c.world.disk i) n m) :
    Follows D (fc.setNode i n) (c.setNode i m) where
  sent := h.sent
  handled := h.handled
  inc := h.inc
  history := h.history
  files := h.files
  node j hj := by
    show Node.Alike _ _ (Function.update fc.node i n j) (Function.update c.node i m j)
    by_cases hij : j = i
    · rw [hij, Function.update_self, Function.update_self]
      exact hn
    · rw [Function.update_of_ne hij, Function.update_of_ne hij]
      exact h.node j hj

theorem Follows.consume (h : Follows D fc c) (k : ℕ) :
    Follows D { fc with world := fc.world.consume k } { c with world := c.world.consume k } where
  sent := h.sent
  handled := congrArg (k :: ·) h.handled
  inc := h.inc
  history := h.history
  files := h.files
  node := h.node

/-- Both have a new process. What the last one did to its disk may have been its end. -/
theorem Follows.restart (h : Follows D fc c) {i : ℕ} (hi : i < D.numNodes) {c₁ : Cluster}
    (hsent : c₁.world.sent = c.world.sent) (hhandled : c₁.world.handled = c.world.handled)
    (hinc : c₁.world.inc = c.world.inc) (hhistory : c.world.history <+: c₁.world.history)
    (hother : ∀ j, j ≠ i → c₁.world.disk j = c.world.disk j ∧ c₁.node j = c.node j)
    {files : NodeFiles} (hfiles : files.Holds (c₁.world.disk i)) :
    Follows D (fc.restart D i files) (c₁.restart D i) where
  sent := h.sent.trans hsent.symm
  handled := h.handled.trans hhandled.symm
  inc := by
    show Function.update fc.world.inc i (fc.world.inc i + 1) = Function.update c₁.world.inc i _
    rw [h.inc, hinc]
  history := h.history.trans (hhistory.map Record.occurrence).sublist
  files j hj := by
    show (Function.update fc.world.store i (.boot files) j).Represents (c₁.world.disk j)
    by_cases hij : j = i
    · rw [hij, Function.update_self]
      exact FileStore.boot_represents hfiles
    · rw [Function.update_of_ne hij, (hother j hij).1]
      exact h.files j hj
  node j hj := by
    show Node.Alike _ (Function.update fc.world.store i (.boot files) j, c₁.world.disk j)
      (Function.update fc.node i (raftCreate (D.config i) (.boot files)) j)
      (Function.update c₁.node i (raftCreate (D.config i) (c₁.world.disk i)) j)
    by_cases hij : j = i
    · rw [hij, Function.update_self, Function.update_self, Function.update_self]
      exact Machine.alike_raftCreate (FileStore.boot_represents hfiles) (Cluster.config_id_lt hi)
    · rw [Function.update_of_ne hij, Function.update_of_ne hij, Function.update_of_ne hij,
        (hother j hij).1, (hother j hij).2]
      exact h.node j hj

/-- The rest of a script, once its first effect is carried out. -/
theorem alike_rest {start next : FileStore × Disk} {n : Node FileStore} {m : Node Disk}
    (h : Node.Alike FileStore.onDisk start n m) {es : List (Effect FileStore)}
    {fs : List (Effect Disk)} (hrest : Matching FileStore.onDisk next es fs (n.store, m.store)) :
    Node.Alike FileStore.onDisk next { n with script := es } { m with script := fs } where
  memory := h.memory
  store := h.store
  script := hrest
  commit := h.commit
  id := h.id

/-- The first effects of two scripts, which are the same, reach the two worlds. -/
theorem Follows.performed (h : Follows D fc c) {i : ℕ} {w : FileWorld} {w' : World}
    {n : Node FileStore} {m : Node Disk} (hsent : w.sent = w'.sent)
    (hhandled : w.handled = fc.world.handled) (hhandled' : w'.handled = c.world.handled)
    (hinc : w.inc = fc.world.inc) (hinc' : w'.inc = c.world.inc)
    (hhistory : w.history.Sublist (w'.history.map Record.occurrence))
    (hother : ∀ j, j ≠ i → w.store j = fc.world.store j ∧ w'.disk j = c.world.disk j)
    (hfiles : i < D.numNodes → (w.store i).Represents (w'.disk i))
    (hn : Node.Alike FileStore.onDisk (w.store i, w'.disk i) n m) :
    Follows D (({ fc with world := w } : FileCluster).setNode i n)
      (({ c with world := w' } : Cluster).setNode i m) where
  sent := hsent
  handled := by
    show w.handled = w'.handled
    rw [hhandled, hhandled', h.handled]
  inc := by
    show w.inc = w'.inc
    rw [hinc, hinc', h.inc]
  history := hhistory
  files j hj := by
    show (w.store j).Represents (w'.disk j)
    by_cases hij : j = i
    · rw [hij]
      exact hfiles (hij ▸ hj)
    · rw [(hother j hij).1, (hother j hij).2]
      exact h.files j hj
  node j hj := by
    show Node.Alike FileStore.onDisk (w.store j, w'.disk j) (Function.update fc.node i n j)
      (Function.update c.node i m j)
    by_cases hij : j = i
    · rw [hij, Function.update_self, Function.update_self]
      exact hn
    · rw [(hother j hij).1, (hother j hij).2, Function.update_of_ne hij, Function.update_of_ne hij]
      exact h.node j hj

theorem Follows.occurred (h : Follows D fc c) {i : ℕ} (event : Event) {r : Record}
    (hr : r.occurrence = ⟨i, fc.world.inc i, event⟩) :
    (fc.world.history ++ [(⟨i, fc.world.inc i, event⟩ : Occurrence)]).Sublist
      ((c.world.history ++ [r]).map Record.occurrence) := by
  rw [List.map_append, List.map_singleton, hr]
  exact h.history.append (List.Sublist.refl _)

theorem Follows.exec (h : Follows D fc c) {i : ℕ} (hi : i < D.numNodes)
    (hs : fc.step D (.exec i) = some fc') :
    ∃ c', c.step D (.exec i) = some c' ∧ Follows D fc' c' := by
  have halike := h.node i hi
  have hfiles := h.files i hi
  have hscript := halike.script
  simp only [FileCluster.step, if_pos hi] at hs
  simp only [Cluster.step, if_pos hi]
  generalize hes : (fc.node i).script = es at hs hscript
  generalize hfs : (c.node i).script = fs at hscript
  generalize hstart : (fc.world.store i, c.world.disk i) = start at hscript
  generalize hlast : ((fc.node i).store, (c.node i).store) = last at hscript
  have hother : ∀ {s : FileStore} {d : Disk} (j : ℕ), j ≠ i →
      Function.update fc.world.store i s j = fc.world.store j ∧
        Function.update c.world.disk i d j = c.world.disk j := by
    intro s d j hij
    exact ⟨Function.update_of_ne hij .., Function.update_of_ne hij ..⟩
  cases hscript with
  | nil p => cases hs
  | @store p q r es fs hc event hrest =>
      obtain rfl := Option.some.inj hs
      rw [← hlast] at hrest
      refine ⟨_, rfl, ?_⟩
      have hn := alike_rest halike hrest
      have hstore : Function.update fc.world.store i q.1 i = q.1 := Function.update_self ..
      have hdisk : Function.update c.world.disk i q.2 i = q.2 := Function.update_self ..
      cases event with
      | none =>
          exact h.performed h.sent rfl rfl rfl rfl h.history hother
            (fun _ => by
              show (Function.update fc.world.store i q.1 i).Represents
                (Function.update c.world.disk i q.2 i)
              rw [hstore, hdisk]
              exact hc.1)
            (by
              show Node.Alike _ (Function.update fc.world.store i q.1 i,
                Function.update c.world.disk i q.2 i) _ _
              rw [hstore, hdisk]
              exact hn)
      | some event =>
          refine h.performed h.sent rfl rfl rfl rfl (h.occurred event ?_) hother
            (fun _ => by
              show (Function.update fc.world.store i q.1 i).Represents
                (Function.update c.world.disk i q.2 i)
              rw [hstore, hdisk]
              exact hc.1)
            (by
              show Node.Alike _ (Function.update fc.world.store i q.1 i,
                Function.update c.world.disk i q.2 i) _ _
              rw [hstore, hdisk]
              exact hn)
          show (⟨i, c.world.inc i, event⟩ : Occurrence) = _
          rw [h.inc]
  | @send p r es fs pkt hrest =>
      obtain rfl := Option.some.inj hs
      rw [← hlast, ← hstart] at hrest
      refine ⟨_, rfl, ?_⟩
      refine h.performed ?_ rfl rfl rfl rfl h.history (fun j _ => ⟨rfl, rfl⟩) (fun _ => hfiles)
        (alike_rest halike hrest)
      show fc.world.sent ++ [pkt] = c.world.sent ++ [pkt]
      rw [h.sent]
  | @note p r es fs event hrest =>
      obtain rfl := Option.some.inj hs
      rw [← hlast, ← hstart] at hrest
      refine ⟨_, rfl, ?_⟩
      refine h.performed h.sent rfl rfl rfl rfl (h.occurred event ?_) (fun j _ => ⟨rfl, rfl⟩)
        (fun _ => hfiles) (alike_rest halike hrest)
      show (⟨i, c.world.inc i, event⟩ : Occurrence) = _
      rw [h.inc]
  | @exit p r es fs hrest =>
      obtain rfl := Option.some.inj hs
      exact ⟨_, rfl, h.restart hi rfl rfl rfl List.prefix_rfl (fun _ _ => ⟨rfl, rfl⟩) hfiles.holds⟩

/-! ### Runs -/

/-- A call of a storage function on the files gives what it gives on the disk. -/
theorem Follows.storageOk (h : Follows D fc c) (hok : StorageOk D fc) : Cluster.StorageOk D c := by
  intro i hi
  have halike := h.node i hi
  obtain ⟨hget, hlength, -⟩ := hok i hi
  rw [halike.get FileStore.simulates_disk, Node.get_currentTerm] at hget
  rw [halike.logLength FileStore.simulates_disk, Node.logLength, Disk.storage_length] at hlength
  have hterm : (c.node i).store.currentTerm < 2 ^ 32 := halike.store.state.lt .currentTerm
  have hsmall : (c.node i).store.log.length ≤ 2 ^ 31 := halike.store.log.holds.small
  exact ⟨(i32_nonneg_iff hterm).mp hget, (i32_nonneg_iff (by omega)).mp hlength⟩

theorem storageOk_init (D : Deployment) : StorageOk D (init D) := by
  intro i hi
  have halike := (follows_init D).node i hi
  rw [halike.get FileStore.simulates_disk, halike.logLength FileStore.simulates_disk]
  show 0 ≤ i32 (0 : ℕ) ∧ 0 ≤ i32 (0 : ℕ) ∧ i32 (0 : ℕ) + (32 : ℕ) < 2 ^ 31
  rw [i32_of_nat (by decide)]
  decide

theorem Reachable.storageOk (hc : Reachable D fc) : StorageOk D fc := by
  cases hc with
  | init => exact storageOk_init D
  | step _ _ _ hok => exact hok

/-- The runs on disks, with what clients send of its types. -/
def Typed (D : Deployment) (_ : Cluster) (a : Action) (c' : Cluster) : Prop :=
  a.Fits ∧ Cluster.StorageOk D c'

/-- Where a process ends on files, it can end on the disk, before the next effect or behind it. -/
theorem Follows.crash (h : Follows D fc c) (hc : Cluster.Run D (Typed D) c) {i j : ℕ}
    {boots : List ℕ} (hi : i < D.numNodes) (hs : fc.step D (.crash i j boots) = some fc')
    (hok : StorageOk D fc') : ∃ c', Cluster.Run D (Typed D) c' ∧ Follows D fc' c' := by
  simp only [FileCluster.step, if_pos hi] at hs
  obtain rfl := Option.some.inj hs
  have hboots : ∀ (boots : List ℕ) {files : NodeFiles} {d : Disk}, files.Holds d →
      (boots.foldl NodeFiles.bootCut files).Holds d := by
    intro boots
    induction boots with
    | nil => exact fun hold => hold
    | cons j boots ih => exact fun hold => ih (FileStore.bootCut_holds hold j)
  have hcrash : ∀ c₁ : Cluster, c₁.step D (.crash i) = some (c₁.restart D i) := by
    intro c₁
    simp only [Cluster.step, if_pos hi]
  rcases Machine.cutFiles_holds (h.node i hi).script (h.files i hi) 0 j with hold | ⟨d, event, hd, hold⟩
  · have hnext := h.restart hi rfl rfl rfl List.prefix_rfl (fun _ _ => ⟨rfl, rfl⟩) (hboots boots hold)
    exact ⟨_, hc.step (hcrash c) ⟨trivial, hnext.storageOk hok⟩, hnext⟩
  · -- the call that was cut has taken effect
    obtain ⟨rest, hrest⟩ : ∃ rest, (c.node i).script = .store d event :: rest := by
      cases hscript : (c.node i).script with
      | nil => rw [hscript] at hd; cases hd
      | cons e rest =>
          rw [hscript] at hd
          exact ⟨rest, by rw [Option.some.inj hd]⟩
    generalize hc₁ : ({ c with world := c.world.perform i (.store d event) } : Cluster).setNode i
      { c.node i with script := rest } = c₁
    have hexec : c.step D (.exec i) = some c₁ := by
      simp only [Cluster.step, if_pos hi, hrest, ← hc₁]
    have hsame : c₁.world.sent = c.world.sent ∧ c₁.world.handled = c.world.handled ∧
        c₁.world.inc = c.world.inc ∧ c₁.world.disk i = d ∧
        ∀ j, j ≠ i → c₁.world.disk j = c.world.disk j := by
      rw [← hc₁]
      cases event with
      | none =>
          exact ⟨rfl, rfl, rfl, Function.update_self .., fun j hij => Function.update_of_ne hij ..⟩
      | some event =>
          exact ⟨rfl, rfl, rfl, Function.update_self .., fun j hij => Function.update_of_ne hij ..⟩
    obtain ⟨hsent, hhandled, hinc, hdisk, hother⟩ := hsame
    have hnode : ∀ j, j ≠ i → c₁.node j = c.node j := by
      intro j hij
      rw [← hc₁]
      exact Function.update_of_ne hij ..
    have hstore : ∀ j, (c₁.node j).store = (c.node j).store := by
      intro j
      by_cases hij : j = i
      · rw [hij, ← hc₁]
        show (Function.update c.node i _ i).store = _
        rw [Function.update_self]
      · rw [hnode j hij]
    have hmid : Cluster.StorageOk D c₁ := by
      intro j hj
      rw [hstore j]
      exact Cluster.Run.storageOk (fun h => h.2) hc j hj
    have hnext := h.restart hi hsent hhandled hinc (Cluster.step_history hexec)
      (fun j hij => ⟨hother j hij, hnode j hij⟩) (hboots boots (hdisk.symm ▸ hold))
    exact ⟨_, (hc.step hexec ⟨trivial, hmid⟩).step (hcrash c₁) ⟨trivial, hnext.storageOk hok⟩, hnext⟩

theorem Follows.idle (h : Follows D fc c) {i : ℕ} (hi : i < D.numNodes) : fc.idle i = c.idle i :=
  (h.node i hi).script.isEmpty_eq

/-- A handler runs on both. -/
theorem Follows.deliver (h : Follows D fc c) (hc : Cluster.Run D (Typed D) c)
    (hroom : StorageOk D fc) {k : ℕ} {env : Env} (hs : fc.step D (.deliver k env) = some fc') :
    ∃ c', c.step D (.deliver k env) = some c' ∧ Follows D fc' c' := by
  simp only [FileCluster.step] at hs
  simp only [Cluster.step]
  rw [h.sent, h.handled] at hs
  generalize hpkt : c.world.sent[k]? = found at hs ⊢
  cases found with
  | none => cases hs
  | some pkt =>
      dsimp only at hs ⊢
      split at hs
      · rename_i hcond
        obtain rfl := Option.some.inj hs
        have hi := hcond.2.1
        have halike := h.node pkt.dst hi
        have hfits := (Cluster.Run.fits (fun h => h.1) hc).sent pkt (List.mem_of_getElem? hpkt)
        have hlen : (c.node pkt.dst).logLength + maxAppendEntriesN < 2 ^ 31 := by
          rw [← halike.logLength FileStore.simulates_disk]
          exact (hroom pkt.dst hi).2.2
        have hturn := halike.raftHandleRpc FileStore.simulates_disk env hfits.rpc fun req hreq => by
          have hmax : req.entries.length ≤ maxAppendEntriesN := by
            have hn := hfits.nEntries
            rw [hreq] at hn
            exact hn
          omega
        rw [if_pos ⟨hcond.1, hi, by rw [← h.idle hi]; exact hcond.2.2⟩]
        exact ⟨_, rfl, (h.consume k).setNode hturn⟩
      · cases hs

theorem Follows.timeout (h : Follows D fc c) {i : ℕ} {env : Env}
    (hs : fc.step D (.timeout i env) = some fc') :
    ∃ c', c.step D (.timeout i env) = some c' ∧ Follows D fc' c' := by
  simp only [FileCluster.step] at hs
  simp only [Cluster.step]
  split at hs
  · rename_i hcond
    obtain rfl := Option.some.inj hs
    rw [if_pos ⟨hcond.1, by rw [← h.idle hcond.1]; exact hcond.2⟩]
    have hturn := (h.node i hcond.1).raftHandleTimeout FileStore.simulates_disk env
    exact ⟨_, rfl, h.setNode hturn⟩
  · cases hs

theorem Follows.client (h : Follows D fc c) {i src : ℕ} {req : ProcReq}
    (hreq : (Rpc.procReq req).Fits) (hs : fc.step D (.client i src req) = some fc') :
    ∃ c', c.step D (.client i src req) = some c' ∧ Follows D fc' c' := by
  simp only [FileCluster.step] at hs
  simp only [Cluster.step]
  split at hs
  · rename_i hcond
    obtain rfl := Option.some.inj hs
    rw [if_pos ⟨hcond.1, by rw [← h.idle hcond.1]; exact hcond.2⟩]
    have hturn := (h.node i hcond.1).handleProcRequest FileStore.simulates_disk src hreq
    exact ⟨_, rfl, h.setNode hturn⟩
  · cases hs

/-- Every state of the cluster on files is one of the cluster on disks: the same packets, the
same memory of the nodes and the same events, but for one of a call that a process did not
outlive, and files that stand for the disks. -/
theorem files_refine_cluster (hc : Reachable D fc) :
    ∃ c, Cluster.Run D (Typed D) c ∧ Follows D fc c := by
  induction hc with
  | init => exact ⟨_, .init, follows_init D⟩
  | @step fc fc' a hfc hs ha hok ih =>
      obtain ⟨c, hc, h⟩ := ih
      cases a with
      | deliver k env =>
          obtain ⟨c', hstep, hnext⟩ := h.deliver hc hfc.storageOk hs
          exact ⟨c', hc.step hstep ⟨trivial, hnext.storageOk hok⟩, hnext⟩
      | lose k =>
          obtain rfl := Option.some.inj hs
          have hnext := h.consume k
          exact ⟨_, hc.step (a := .lose k) rfl ⟨trivial, hnext.storageOk hok⟩, hnext⟩
      | timeout i env =>
          obtain ⟨c', hstep, hnext⟩ := h.timeout hs
          exact ⟨c', hc.step hstep ⟨trivial, hnext.storageOk hok⟩, hnext⟩
      | client i src req =>
          obtain ⟨c', hstep, hnext⟩ := h.client ha.2 hs
          exact ⟨c', hc.step hstep ⟨ha, hnext.storageOk hok⟩, hnext⟩
      | exec i =>
          by_cases hi : i < D.numNodes
          · obtain ⟨c', hstep, hnext⟩ := h.exec hi hs
            exact ⟨c', hc.step hstep ⟨trivial, hnext.storageOk hok⟩, hnext⟩
          · simp only [FileCluster.step, if_neg hi] at hs
            cases hs
      | crash i j boots =>
          by_cases hi : i < D.numNodes
          · exact h.crash hc hi hs hok
          · simp only [FileCluster.step, if_neg hi] at hs
            cases hs

/-! ### Runs that are given -/

instance : ∀ a : FileAction, Decidable a.Fits
  | .client _ src req => inferInstanceAs (Decidable (src < 2 ^ 32 ∧
      (req.clientId < 2 ^ 32 ∧ req.cmdSeqno < 2 ^ 32 ∧ req.cmd < 2 ^ 32)))
  | .deliver _ _ | .lose _ | .timeout _ _ | .exec _ | .crash _ _ _ =>
    inferInstanceAs (Decidable True)

instance (D : Deployment) (c : FileCluster) : Decidable (StorageOk D c) :=
  inferInstanceAs (Decidable (∀ i < D.numNodes, _))

def runActions (D : Deployment) : FileCluster → List FileAction → Option FileCluster
  | c, [] => some c
  | c, a :: as => (c.step D a).bind fun c' =>
    if a.Fits ∧ StorageOk D c' then runActions D c' as else none

theorem Reachable.of_actions {as : List FileAction} (hc : Reachable D fc)
    (h : runActions D fc as = some fc') : Reachable D fc' := by
  induction as generalizing fc with
  | nil => exact (Option.some.inj h) ▸ hc
  | cons a as ih =>
      obtain ⟨d, hd, h⟩ := Option.bind_eq_some_iff.mp h
      split at h
      · rename_i hok
        exact ih (.step hc hd hok.1 hok.2) h
      · cases h

theorem Reachable.exists_of_actions {P : FileCluster → Prop} [DecidablePred P]
    (as : List FileAction)
    (h : (runActions D (FileCluster.init D) as).any (fun c => decide (P c)) = true) :
    ∃ fc, Reachable D fc ∧ P fc := by
  obtain ⟨fc, hfc, hP⟩ := (Option.any_eq_true _ _).mp h
  exact ⟨fc, .of_actions .init hfc, of_decide_eq_true hP⟩

def execs (i k : ℕ) : List FileAction := List.replicate k (.exec i)

/-- Node 0 of three nodes is elected in term 1 and accepts a command. The process of node 2
ends while it writes the entry, when it is in the first file and its length is not in the
second, and the next one while it starts. Node 0 sends the command again with another one,
node 2 stores both, and node 0 commits and applies them. -/
def served : List FileAction :=
  [.timeout 0 ⟨0, 0⟩] ++ execs 0 4 ++ [.deliver 1 ⟨0, 0⟩] ++ execs 2 5 ++
  [.deliver 2 ⟨0, 0⟩] ++ execs 0 3 ++ [.client 0 9 ⟨9, 1, 7⟩] ++ execs 0 3 ++
  [.deliver 6 ⟨0, 0⟩, .crash 2 3 [1]] ++ [.client 0 9 ⟨9, 2, 8⟩] ++ execs 0 3 ++
  [.deliver 8 ⟨0, 0⟩] ++ execs 2 3 ++ [.deliver 9 ⟨0, 0⟩] ++ execs 0 7

theorem files_refine_cluster_served : ∃ fc, Reachable (.plain 3 (by decide)) fc ∧
    fc.world.inc 2 = 1 ∧ ∃ c, Cluster.Run (.plain 3 (by decide)) (Typed (.plain 3 (by decide))) c ∧
      c.world.inc 2 = 1 ∧ fc.world.sent = c.world.sent := by
  have hrun : ∃ fc, Reachable (.plain 3 (by decide)) fc ∧ fc.world.inc 2 = 1 :=
    Reachable.exists_of_actions (P := fun fc => fc.world.inc 2 = 1) served (by decide +kernel)
  obtain ⟨fc, hfc, hinc⟩ := hrun
  obtain ⟨c, hc, h⟩ := files_refine_cluster hfc
  exact ⟨fc, hfc, hinc, c, hc, by rw [← h.inc, hinc], h.sent⟩

/-! ### What holds of the files -/

/-- The log that a process would find that is started now on the files of `i`. -/
def recoveredLog (c : FileCluster) (i : ℕ) : List (Option LogEntry) :=
  FileLog.recovered (c.world.store i).log.files

theorem Follows.recoveredLog_eq (h : Follows D fc c) {i : ℕ} (hi : i < D.numNodes) :
    fc.recoveredLog i = (c.world.disk i).log.map some :=
  FileLog.recovered_eq (h.files i hi).log.holds

theorem Follows.mem_history (h : Follows D fc c) {o : Occurrence} (ho : o ∈ fc.world.history) :
    ∃ r ∈ c.world.history, r.occurrence = o := List.mem_map.mp (h.history.mem ho)

/-- Wherever processes end, a term has one leader, an index has one entry that is ever applied,
and the logs in the files match: two that have an entry of one term in one place agree up to
there. -/
theorem files_safety (hc : Reachable D fc) :
    (∀ o ∈ fc.world.history, ∀ o' ∈ fc.world.history, ∀ t,
      o.event = .becameLeader t → o'.event = .becameLeader t → o.node = o'.node) ∧
    (∀ o ∈ fc.world.history, ∀ o' ∈ fc.world.history, ∀ idx e e',
      o.event = .apply idx e → o'.event = .apply idx e' → e = e') ∧
    ∀ i < D.numNodes, ∀ j < D.numNodes, ∀ (k : ℕ) e e',
      (fc.recoveredLog i)[k]? = some (some e) → (fc.recoveredLog j)[k]? = some (some e') →
      e.term = e'.term → ∀ m ≤ k, (fc.recoveredLog i)[m]? = (fc.recoveredLog j)[m]? := by
  obtain ⟨c, hrun, h⟩ := files_refine_cluster hc
  have hreach : Cluster.Reachable D c := hrun.mono fun _ _ _ hok => hok.2
  refine ⟨fun o ho o' ho' t ht ht' => ?_, fun o ho o' ho' idx e e' he he' => ?_, ?_⟩
  · obtain ⟨r, hr, rfl⟩ := h.mem_history ho
    obtain ⟨r', hr', rfl⟩ := h.mem_history ho'
    exact Election.election_safety hreach ⟨r, hr, rfl, ht⟩ ⟨r', hr', rfl, ht'⟩
  · obtain ⟨r, hr, rfl⟩ := h.mem_history ho
    obtain ⟨r', hr', rfl⟩ := h.mem_history ho'
    exact (Replication.state_machine_safety hreach).1 r hr r' hr' idx e e' he he'
  · intro i hi j hj k e e' he he' hterm m hm
    rw [h.recoveredLog_eq hi, List.getElem?_map] at he ⊢
    rw [h.recoveredLog_eq hj, List.getElem?_map] at he' ⊢
    obtain ⟨x, hx, hxe⟩ := Option.map_eq_some_iff.mp he
    obtain ⟨y, hy, hye⟩ := Option.map_eq_some_iff.mp he'
    obtain rfl := Option.some.inj hxe
    obtain rfl := Option.some.inj hye
    rw [Replication.log_matching hreach hx hy hterm m hm]

theorem files_safety_served : ∃ fc, Reachable (.plain 3 (by decide)) fc ∧ fc.world.inc 2 = 1 ∧
    (∀ o ∈ fc.world.history, ∀ e, o.event = .apply 0 e → e = ⟨1, 9, 1, 7⟩) ∧
    (fc.recoveredLog 0)[0]? = (fc.recoveredLog 2)[0]? := by
  have hrun : ∃ fc, Reachable (.plain 3 (by decide)) fc ∧ fc.world.inc 2 = 1 ∧
      (∃ o ∈ fc.world.history, o.event = .apply 0 ⟨1, 9, 1, 7⟩) ∧
      (fc.recoveredLog 0)[1]? = some (some ⟨1, 9, 2, 8⟩) ∧
      (fc.recoveredLog 2)[1]? = some (some ⟨1, 9, 2, 8⟩) :=
    Reachable.exists_of_actions (P := fun fc => fc.world.inc 2 = 1 ∧
      (∃ o ∈ fc.world.history, o.event = .apply 0 ⟨1, 9, 1, 7⟩) ∧
      (fc.recoveredLog 0)[1]? = some (some ⟨1, 9, 2, 8⟩) ∧
      (fc.recoveredLog 2)[1]? = some (some ⟨1, 9, 2, 8⟩)) served (by decide +kernel)
  obtain ⟨fc, hfc, hinc, ⟨o, ho, hev⟩, h0, h2⟩ := hrun
  obtain ⟨-, happly, hmatch⟩ := files_safety hfc
  exact ⟨fc, hfc, hinc, fun o' ho' e hev' => happly o' ho' o ho 0 e _ hev' hev,
    hmatch 0 (by decide) 2 (by decide) 1 _ _ h0 h2 rfl 0 (by decide)⟩

end FileCluster

end GeoRaft
