import GeoRaft.Cluster.System
import GeoRaft.Node.Sending

/-!
Every packet of every run fits the wire.

What clients send is of the types of C. Then so is everything that any node of the cluster
holds, stores and sends, whatever the order of the steps and wherever processes end.
-/

namespace GeoRaft

open Word

/-- The values of the packet that a client sends are of their types. -/
def Action.Fits : Action → Prop
  | .client _ src req => src < 2 ^ 32 ∧ (Rpc.procReq req).Fits
  | _ => True

instance : ∀ a : Action, Decidable a.Fits
  | .client _ src req => inferInstanceAs (Decidable (src < 2 ^ 32 ∧
      (req.clientId < 2 ^ 32 ∧ req.cmdSeqno < 2 ^ 32 ∧ req.cmd < 2 ^ 32)))
  | .deliver _ _ | .lose _ | .timeout _ _ | .exec _ | .crash _ => inferInstanceAs (Decidable True)

namespace Cluster

/-- What is sent, what is on disk and what the nodes hold is of its types. -/
structure Fits (D : Deployment) (c : Cluster) : Prop where
  sent : ∀ pkt ∈ c.world.sent, pkt.Fits
  disk : ∀ i, (c.world.disk i).Fits
  node : ∀ i < D.numNodes, (c.node i).Fits

variable {D : Deployment} {c c' : Cluster}

theorem config_id_lt {i : ℕ} (hi : i < D.numNodes) : (D.config i).id < 2 ^ 32 := by
  have hfits := D.fits
  rw [D.id_eq]
  unfold pfNoVote at hfits
  omega

theorem config_numNodes_le (i : ℕ) : (D.config i).numNodes ≤ 2 ^ 32 := by
  have hfits := D.fits
  rw [D.numNodes_eq]
  unfold pfNoVote at hfits
  omega

theorem fits_init : (init D).Fits D where
  sent := by
    intro pkt hpkt
    cases hpkt
  disk _ := Disk.fits_init
  node _ hi := Node.fits_raftCreate (config_id_lt hi) (config_numNodes_le _) Disk.fits_init

/-- One node has another state. -/
theorem Fits.setNode (h : c.Fits D) {i : ℕ} {n : Node Disk} (hn : n.Fits) : (c.setNode i n).Fits D where
  sent := h.sent
  disk := h.disk
  node j hj := by
    show (Function.update c.node i n j).Fits
    by_cases hij : j = i
    · rw [hij, Function.update_self]
      exact hn
    · rw [Function.update_of_ne hij]
      exact h.node j hj

theorem Fits.restart (h : c.Fits D) {i : ℕ} (hi : i < D.numNodes) : (c.restart D i).Fits D where
  sent := h.sent
  disk := h.disk
  node j hj := by
    show (Function.update c.node i (raftCreate (D.config i) (c.world.disk i)) j).Fits
    by_cases hij : j = i
    · rw [hij, Function.update_self]
      exact Node.fits_raftCreate (config_id_lt hi) (config_numNodes_le _) (h.disk i)
    · rw [Function.update_of_ne hij]
      exact h.node j hj

/-- An effect that fits reaches the world. -/
theorem Fits.perform (h : c.Fits D) (i : ℕ) {e : Effect Disk} (he : e.Fits) :
    Fits D { c with world := c.world.perform i e } := by
  have hstore : ∀ {d : Disk}, d.Fits → ∀ j, (Function.update c.world.disk i d j).Fits := by
    intro d hd j
    by_cases hij : j = i
    · rw [hij, Function.update_self]
      exact hd
    · rw [Function.update_of_ne hij]
      exact h.disk j
  cases e with
  | store d event =>
      cases event with
      | none => exact ⟨h.sent, hstore he, h.node⟩
      | some event => exact ⟨h.sent, hstore he, h.node⟩
  | send pkt =>
      refine ⟨fun p hp => ?_, h.disk, h.node⟩
      rcases List.mem_append.mp hp with hp | hp
      · exact h.sent p hp
      · rw [List.mem_singleton.mp hp]
        exact he
  | note event => exact ⟨h.sent, h.disk, h.node⟩
  | exit => exact h

theorem Fits.step (h : c.Fits D) {a : Action} (ha : a.Fits) (hs : c.step D a = some c') :
    c'.Fits D := by
  cases a with
  | deliver k env =>
      simp only [Cluster.step] at hs
      split at hs
      · cases hs
      · rename_i pkt hpkt
        split at hs
        · rename_i hcond
          obtain rfl := Option.some.inj hs
          have hfits := h.sent pkt (List.mem_of_getElem? hpkt)
          have hworld : Fits D { c with world := c.world.consume k } := ⟨h.sent, h.disk, h.node⟩
          exact hworld.setNode ((h.node _ hcond.2.1).raftHandleRpc env hfits.src hfits.rpc)
        · cases hs
  | lose k =>
      obtain rfl := Option.some.inj hs
      exact ⟨h.sent, h.disk, h.node⟩
  | timeout i env =>
      simp only [Cluster.step] at hs
      split at hs
      · rename_i hcond
        obtain rfl := Option.some.inj hs
        exact h.setNode ((h.node i hcond.1).raftHandleTimeout env)
      · cases hs
  | client i src req =>
      simp only [Cluster.step] at hs
      split at hs
      · rename_i hcond
        obtain rfl := Option.some.inj hs
        exact h.setNode ((h.node i hcond.1).handleProcRequest ha.2 ha.1)
      · cases hs
  | exec i =>
      simp only [Cluster.step] at hs
      split at hs
      · rename_i hi
        have hnode := h.node i hi
        split at hs
        · cases hs
        · obtain rfl := Option.some.inj hs
          exact h.restart hi
        · rename_i e rest _ hscript
          obtain rfl := Option.some.inj hs
          refine (h.perform i (hnode.script e ?_)).setNode ?_
          · rw [hscript]
            exact List.mem_cons_self
          · refine ⟨hnode.id, hnode.numNodes, hnode.leaderId, hnode.le_commit, hnode.commit_lt,
              hnode.store, fun e' he' => hnode.script e' ?_⟩
            rw [hscript]
            exact List.mem_cons_of_mem _ he'
      · cases hs
  | crash i =>
      simp only [Cluster.step] at hs
      split at hs
      · rename_i hi
        obtain rfl := Option.some.inj hs
        exact h.restart hi
      · cases hs

theorem Run.fits {ok : Cluster → Action → Cluster → Prop}
    (hok : ∀ {c a c'}, ok c a c' → a.Fits) (hc : Run D ok c) : c.Fits D :=
  Run.invariant fits_init (fun _ h hs hstep => h.step (hok hstep) hs) hc

end Cluster

end GeoRaft
