import GeoRaft.Library.Script
import GeoRaft.Cluster.System

/-!
A program logic for the nodes of a cluster.

An invariant of a cluster is put together from a part about the world (`Good`)
and a part about the memory of each node (`Mem`), both of which may speak of a
ghost state that moves along. A node in the middle of a handler is in order
(`Ok`) if its script can be carried out under interference and leaves its memory
in order. What remains to be shown of a cluster is then one obligation for each
way a handler starts (`Obligations`), and `Logic.run` turns them into an
invariant of every run, at every point between two effects.
-/

namespace GeoRaft

open Script

/-- What the processes other than `i` can have done to the world. -/
structure Interf (i : ℕ) (w w' : World) : Prop where
  disk : w'.disk i = w.disk i
  inc : w'.inc i = w.inc i
  sent : ∃ s, w'.sent = w.sent ++ s ∧ ∀ p ∈ s, p.src ≠ i
  handled : ∀ {k}, k ∈ w.handled → k ∈ w'.handled
  history : ∃ h, w'.history = w.history ++ h ∧ ∀ r ∈ h, r.node ≠ i

theorem Interf.refl (i : ℕ) (w : World) : Interf i w w :=
  ⟨rfl, rfl, ⟨[], by simp⟩, id, ⟨[], by simp⟩⟩

theorem Interf.trans {i : ℕ} {u v w : World} (huv : Interf i u v) (hvw : Interf i v w) :
    Interf i u w := by
  obtain ⟨s, hs, hsrc⟩ := huv.sent
  obtain ⟨s', hs', hsrc'⟩ := hvw.sent
  obtain ⟨h, hh, hnode⟩ := huv.history
  obtain ⟨h', hh', hnode'⟩ := hvw.history
  refine ⟨hvw.disk.trans huv.disk, hvw.inc.trans huv.inc, ⟨s ++ s', ?_, ?_⟩,
    fun hk => hvw.handled (huv.handled hk), ⟨h ++ h', ?_, ?_⟩⟩
  · rw [hs', hs, List.append_assoc]
  · intro p hp
    exact (List.mem_append.mp hp).elim (hsrc p) (hsrc' p)
  · rw [hh', hh, List.append_assoc]
  · intro r hr
    exact (List.mem_append.mp hr).elim (hnode r) (hnode' r)

theorem Interf.sent_eq {i k : ℕ} {w w' : World} (h : Interf i w w') {p : Pkt}
    (hp : w.sent[k]? = some p) : w'.sent[k]? = some p := by
  obtain ⟨s, hs, -⟩ := h.sent
  rw [hs, List.getElem?_append_left (List.getElem?_eq_some_iff.mp hp).1, hp]

/-- A packet of `i` was sent by `i`. -/
theorem Interf.sent_own {i k : ℕ} {w w' : World} (h : Interf i w w') {p : Pkt}
    (hp : w'.sent[k]? = some p) (hi : p.src = i) : w.sent[k]? = some p := by
  obtain ⟨s, hs, hsrc⟩ := h.sent
  rcases lt_or_ge k w.sent.length with hlt | hge
  · rwa [hs, List.getElem?_append_left hlt] at hp
  · rw [hs, List.getElem?_append_right hge] at hp
    exact absurd hi (hsrc p (List.mem_of_getElem? hp))

theorem Interf.mem_history {i : ℕ} {w w' : World} (h : Interf i w w') {r : Record}
    (hr : r ∈ w.history) : r ∈ w'.history := by
  obtain ⟨s, hs, -⟩ := h.history
  exact hs ▸ List.mem_append_left _ hr

/-- A record of `i` was made by `i`. -/
theorem Interf.history_own {i : ℕ} {w w' : World} (h : Interf i w w') {r : Record}
    (hr : r ∈ w'.history) (hi : r.node = i) : r ∈ w.history := by
  obtain ⟨s, hs, hnode⟩ := h.history
  rw [hs] at hr
  exact (List.mem_append.mp hr).resolve_right fun hr => hnode r hr hi

/-- A packet handed to the transport carries the id of its sender. -/
def Effect.From (i : ℕ) : Effect Disk → Prop
  | .send pkt => pkt.src = i
  | _ => True

theorem World.perform_interf {i j : ℕ} (hij : i ≠ j) {e : Effect Disk} (he : e.From i)
    (w : World) : Interf j w (w.perform i e) := by
  cases e with
  | store d event =>
      cases event with
      | none => exact { Interf.refl j w with disk := by simp [World.perform, hij.symm] }
      | some event =>
          exact { Interf.refl j w with
            disk := by simp [World.perform, World.record, hij.symm]
            history := ⟨[_], rfl, by simpa using hij⟩ }
  | send pkt =>
      exact { Interf.refl j w with
        sent := ⟨[pkt], rfl, by
          have : pkt.src = i := he
          simp [this, hij]⟩ }
  | note event => exact { Interf.refl j w with history := ⟨[_], rfl, by simpa using hij⟩ }
  | exit => exact Interf.refl j w

theorem World.consume_interf (j k : ℕ) (w : World) : Interf j w (w.consume k) :=
  { Interf.refl j w with handled := fun h => List.mem_cons_of_mem _ h }

/-! ### The logic -/

structure Logic (γ : Type) where
  /-- What is already known of every world of the runs in question. -/
  Known : World → Prop
  Good : World → γ → Prop
  Mem : ℕ → Node Disk → World → γ → Prop
  /-- The ghost moves of a process, and what those of the others leave it. -/
  Ghost : ℕ → γ → γ → Prop
  Rely : ℕ → γ → γ → Prop
  rely_refl : ∀ {i g}, Rely i g g
  rely_trans : ∀ {i f g h}, Rely i f g → Rely i g h → Rely i f h
  ghost_rely : ∀ {w i j g g'}, Good w g → Ghost i g g' → i ≠ j → Rely j g g'
  mem_stable : ∀ {i n w w' g g'}, Mem i n w g → Interf i w w' → Rely i g g' → Good w' g' →
    Mem i n w' g'
  mem_script : ∀ {i n w g} (s : List (Effect Disk)), Mem i n w g → Mem i { n with script := s } w g

namespace Logic

variable {γ : Type} (L : Logic γ)

/-- The setting in which the process `i` carries out its script. -/
def setting (i : ℕ) : Setting (World × γ) (Effect Disk) where
  good p := L.Known p.1 ∧ L.Good p.1 p.2
  rely p q := Interf i p.1 q.1 ∧ L.Rely i p.2 q.2 ∧ L.Known q.1 ∧ L.Good q.1 q.2
  act e p Q := e.From i ∧ (L.Known (p.1.perform i e) →
    ∃ g, L.Ghost i p.2 g ∧ L.Good (p.1.perform i e) g ∧ Q (p.1.perform i e, g))
  rely_refl h := ⟨Interf.refl i _, L.rely_refl, h⟩
  rely_trans h h' := ⟨h.1.trans h'.1, L.rely_trans h.2.1 h'.2.1, h'.2.2⟩
  rely_good h := h.2.2
  act_mono hPQ h := ⟨h.1, fun hk =>
    let ⟨g, hg, hgood, hP⟩ := h.2 hk
    ⟨g, hg, hgood, hPQ _ hP⟩⟩

/-- World, ghost and the memory of `i` are in order. -/
def At (i : ℕ) (n : Node Disk) (p : World × γ) : Prop :=
  L.Known p.1 ∧ L.Good p.1 p.2 ∧ L.Mem i n p.1 p.2

/-- The node can carry out its script from `p`; when it is over the node is in
order and `P` holds. -/
def OkWith (P : World × γ → Prop) (i : ℕ) (p : World × γ) (n : Node Disk) : Prop :=
  wp (L.setting i) n.script (fun q => L.At i n q ∧ P q) p

abbrev Ok : ℕ → World × γ → Node Disk → Prop := L.OkWith fun _ => True

variable {L}

theorem At.stable {i : ℕ} {n : Node Disk} : Stable (L.setting i) (L.At i n) :=
  fun _ _ h hat => ⟨h.2.2.1, h.2.2.2, L.mem_stable hat.2.2 h.1 h.2.1 h.2.2.2⟩

theorem Ok.rely {i : ℕ} {p q : World × γ} {n : Node Disk} (h : L.Ok i p n)
    (hr : (L.setting i).rely p q) : L.Ok i q n :=
  (At.stable.and fun _ _ _ h => h).wp _ hr h

/-- An idle node. -/
theorem At.okWith {P : World × γ → Prop} {i : ℕ} {p : World × γ} {n : Node Disk}
    (h : L.At i n p) (hs : n.script = []) (hP : P p) : L.OkWith P i p n := by
  rw [OkWith, hs]
  exact ⟨h, hP⟩

theorem Ok.at {i : ℕ} {p : World × γ} {n : Node Disk} (h : L.Ok i p n) (hs : n.script = []) :
    L.At i n p := by
  rw [Ok, OkWith, hs] at h
  exact h.1

theorem OkWith.mono {P P' : World × γ → Prop} {i : ℕ} {p : World × γ} {n : Node Disk}
    (h : L.OkWith P i p n) (hP : ∀ q, L.At i n q → P q → P' q) : L.OkWith P' i p n :=
  wp_mono (fun q hq => ⟨hq.1, hP q hq.1 hq.2⟩) h

theorem OkWith.ok {P : World × γ → Prop} {i : ℕ} {p : World × γ} {n : Node Disk}
    (h : L.OkWith P i p n) : L.Ok i p n :=
  h.mono fun _ _ _ => trivial

/-- A change of the memory alone. -/
theorem OkWith.mem {P : World × γ → Prop} {i : ℕ} {p : World × γ} {n n' : Node Disk}
    (h : L.OkWith P i p n) (hs : n'.script = n.script)
    (hm : ∀ w g, L.Known w → L.Good w g → L.Mem i n w g → P (w, g) → L.Mem i n' w g) :
    L.OkWith P i p n' := by
  rw [OkWith, hs]
  exact wp_mono (fun q hq =>
    ⟨⟨hq.1.1, hq.1.2.1, hm q.1 q.2 hq.1.1 hq.1.2.1 hq.1.2.2 hq.2⟩, hq.2⟩) h

/-- One more effect. -/
theorem OkWith.effect {P P' : World × γ → Prop} {i : ℕ} {p : World × γ} {n n' : Node Disk}
    {e : Effect Disk} (h : L.OkWith P i p n) (hP : Stable (L.setting i) P)
    (hs : n'.script = n.script ++ [e]) (hf : ∀ w g, L.Mem i n w g → e.From i)
    (he : ∀ w g, L.Known w → L.Good w g → L.Mem i n w g → P (w, g) → L.Known (w.perform i e) →
      ∃ g', L.Ghost i g g' ∧ L.Good (w.perform i e) g' ∧ L.Mem i n' (w.perform i e) g' ∧
        P' (w.perform i e, g')) :
    L.OkWith P' i p n' := by
  rw [OkWith, hs]
  refine wp_snoc h (At.stable.and hP) fun q _ hq => ⟨hf q.1 q.2 hq.1.2.2, fun hk => ?_⟩
  obtain ⟨⟨hknown, hgood, hmem⟩, hPq⟩ := hq
  obtain ⟨g', hg, hgood', hmem', hP'⟩ := he q.1 q.2 hknown hgood hmem hPq hk
  exact ⟨g', hg, hgood', ⟨hk, hgood', hmem'⟩, hP'⟩

theorem Ok.mem {i : ℕ} {p : World × γ} {n n' : Node Disk} (h : L.Ok i p n)
    (hs : n'.script = n.script)
    (hm : ∀ w g, L.Known w → L.Good w g → L.Mem i n w g → L.Mem i n' w g) : L.Ok i p n' :=
  OkWith.mem h hs fun w g hk hg hm' _ => hm w g hk hg hm'

theorem Ok.effect {i : ℕ} {p : World × γ} {n n' : Node Disk} {e : Effect Disk} (h : L.Ok i p n)
    (hs : n'.script = n.script ++ [e]) (hf : ∀ w g, L.Mem i n w g → e.From i)
    (he : ∀ w g, L.Known w → L.Good w g → L.Mem i n w g → L.Known (w.perform i e) →
      ∃ g', L.Ghost i g g' ∧ L.Good (w.perform i e) g' ∧ L.Mem i n' (w.perform i e) g') :
    L.Ok i p n' := by
  refine OkWith.effect h (fun _ _ _ h => h) hs hf fun w g hk hg hm _ hk' => ?_
  obtain ⟨g', hghost, hgood, hmem⟩ := he w g hk hg hm hk'
  exact ⟨g', hghost, hgood, hmem, trivial⟩

/-! ### Clusters -/

variable (L)

/-- The invariant of a cluster. -/
structure Holds (D : Deployment) (c : Cluster) (g : γ) : Prop where
  known : L.Known c.world
  good : L.Good c.world g
  ok : ∀ i, i < D.numNodes → L.Ok i (c.world, g) (c.node i)

/-- What has to be shown: the start, a restart, and every way a handler starts. -/
structure Obligations (D : Deployment) (ok : Cluster → Action → Cluster → Prop) : Prop where
  init : ∃ g, L.Holds D (Cluster.init D) g
  consume : ∀ {w g k}, L.Good w g → L.Good (w.consume k) g
  restart : ∀ {c g i}, L.Holds D c g → i < D.numNodes →
    L.Good (c.restart D i).world g ∧
      L.Mem i (raftCreate (D.config i) (c.world.disk i)) (c.restart D i).world g
  deliver : ∀ {c c' g k env pkt}, c.world.sent[k]? = some pkt → k ∉ c.world.handled →
    pkt.dst < D.numNodes → ok c (.deliver k env) c' →
    c' = { c with world := c.world.consume k }.setNode pkt.dst
      ((c.node pkt.dst).raftHandleRpc env pkt) →
    (c.node pkt.dst).script = [] → L.At pkt.dst (c.node pkt.dst) (c.world, g) →
    L.At pkt.dst (c.node pkt.dst) (c.world.consume k, g) →
    L.Ok pkt.dst (c.world.consume k, g) ((c.node pkt.dst).raftHandleRpc env pkt)
  timeout : ∀ {c c' g i env}, i < D.numNodes → ok c (.timeout i env) c' →
    c' = c.setNode i ((c.node i).raftHandleTimeout env) →
    (c.node i).script = [] → L.At i (c.node i) (c.world, g) →
    L.Ok i (c.world, g) ((c.node i).raftHandleTimeout env)
  client : ∀ {c c' g i src req}, i < D.numNodes → ok c (.client i src req) c' →
    c' = c.setNode i ((c.node i).handleProcRequest req src) →
    (c.node i).script = [] → L.At i (c.node i) (c.world, g) →
    L.Ok i (c.world, g) ((c.node i).handleProcRequest req src)

variable {L}

/-- The other nodes stay in order while one of them moves. -/
theorem Holds.others {D : Deployment} {c : Cluster} {g g' : γ} {w' : World} {i : ℕ}
    {n : Node Disk} (h : L.Holds D c g) (hi : i < D.numNodes) (hk : L.Known w')
    (hgood : L.Good w' g') (hinterf : ∀ j, i ≠ j → Interf j c.world w')
    (hrely : ∀ j, i ≠ j → L.Rely j g g') (hn : L.Ok i (w', g') n) :
    L.Holds D ({ c with world := w' }.setNode i n) g' := by
  refine ⟨hk, hgood, fun j hj => ?_⟩
  by_cases hji : j = i
  · subst hji
    simpa [Cluster.setNode] using hn
  · have hok : L.Ok j (w', g') (c.node j) := (h.ok j hj).rely
      ⟨hinterf j (Ne.symm hji), hrely j (Ne.symm hji), hk, hgood⟩
    simpa [Cluster.setNode, hji] using hok

theorem Holds.restart {D : Deployment} {ok : Cluster → Action → Cluster → Prop}
    (O : L.Obligations D ok) {c : Cluster} {g : γ} {i : ℕ} (h : L.Holds D c g)
    (hi : i < D.numNodes) (hk : L.Known (c.restart D i).world) : L.Holds D (c.restart D i) g := by
  obtain ⟨hgood, hmem⟩ := O.restart h hi
  refine h.others hi hk hgood (fun j hij => ?_) (fun _ _ => L.rely_refl)
    (At.okWith ⟨hk, hgood, hmem⟩ rfl trivial)
  exact { Interf.refl j c.world with inc := by simp [hij.symm] }

theorem Holds.step {D : Deployment} {ok : Cluster → Action → Cluster → Prop}
    (O : L.Obligations D ok) {c c' : Cluster} {a : Action} {g : γ} (h : L.Holds D c g)
    (hs : c.step D a = some c') (hok : ok c a c') (hk : L.Known c'.world) :
    ∃ g', L.Holds D c' g' := by
  cases a with
  | deliver k env =>
      simp only [Cluster.step] at hs
      split at hs
      · cases hs
      · rename_i pkt hpkt
        split at hs
        · rename_i hcond
          obtain ⟨hnew, hdst, hidle⟩ := hcond
          obtain rfl := Option.some.inj hs
          have hscript := List.isEmpty_iff.mp hidle
          have hgood : L.Good (c.world.consume k) g := O.consume h.good
          have hok' : L.Ok pkt.dst (c.world.consume k, g) (c.node pkt.dst) :=
            (h.ok _ hdst).rely ⟨World.consume_interf _ k c.world, L.rely_refl, hk, hgood⟩
          exact ⟨g, h.others hdst hk hgood (fun j _ => World.consume_interf j k _)
            (fun _ _ => L.rely_refl) (O.deliver hpkt hnew hdst hok rfl hscript
              ((h.ok _ hdst).at hscript) (hok'.at hscript))⟩
        · cases hs
  | lose k =>
      obtain rfl := Option.some.inj hs
      have hgood : L.Good (c.world.consume k) g := O.consume h.good
      exact ⟨g, hk, hgood, fun j hj =>
        (h.ok j hj).rely ⟨World.consume_interf j k c.world, L.rely_refl, hk, hgood⟩⟩
  | timeout i env =>
      simp only [Cluster.step] at hs
      split at hs
      · rename_i hcond
        obtain rfl := Option.some.inj hs
        exact ⟨g, h.others hcond.1 hk h.good (fun j _ => Interf.refl j _)
          (fun _ _ => L.rely_refl) 
            (O.timeout hcond.1 hok rfl (List.isEmpty_iff.mp hcond.2)
              ((h.ok _ hcond.1).at (List.isEmpty_iff.mp hcond.2)))⟩
      · cases hs
  | client i src req =>
      simp only [Cluster.step] at hs
      split at hs
      · rename_i hcond
        obtain rfl := Option.some.inj hs
        exact ⟨g, h.others hcond.1 hk h.good (fun j _ => Interf.refl j _)
          (fun _ _ => L.rely_refl) 
            (O.client hcond.1 hok rfl (List.isEmpty_iff.mp hcond.2)
              ((h.ok _ hcond.1).at (List.isEmpty_iff.mp hcond.2)))⟩
      · cases hs
  | exec i =>
      simp only [Cluster.step] at hs
      split at hs
      · rename_i hi
        split at hs
        · cases hs
        · obtain rfl := Option.some.inj hs
          exact ⟨g, h.restart O hi hk⟩
        · rename_i e rest hne hscript
          obtain rfl := Option.some.inj hs
          have hok' := h.ok i hi
          rw [Ok, OkWith, hscript] at hok'
          obtain ⟨hfrom, hact⟩ := hok' _ ((L.setting i).rely_refl ⟨h.known, h.good⟩)
          obtain ⟨g', hghost, hgood, hrest⟩ := hact hk
          exact ⟨g', h.others hi hk hgood (fun j hij => World.perform_interf hij hfrom _)
            (fun j hij => L.ghost_rely h.good hghost hij) 
              (wp_mono (fun _ hq => ⟨⟨hq.1.1, hq.1.2.1, L.mem_script rest hq.1.2.2⟩, trivial⟩) hrest)⟩
      · cases hs
  | crash i =>
      simp only [Cluster.step] at hs
      split at hs
      · rename_i hi
        obtain rfl := Option.some.inj hs
        exact ⟨g, h.restart O hi hk⟩
      · cases hs

/-- The obligations make an invariant of every run. -/
theorem run {D : Deployment} {ok : Cluster → Action → Cluster → Prop} (O : L.Obligations D ok)
    (hknown : ∀ {c}, Cluster.Run D ok c → L.Known c.world) {c : Cluster}
    (hc : Cluster.Run D ok c) : ∃ g, L.Holds D c g := by
  induction hc with
  | init => exact O.init
  | step hc hs hok ih =>
      obtain ⟨g, h⟩ := ih
      exact h.step O hs hok (hknown (.step hc hs hok))

/-- A node that is left alone carries its script out. The worlds on the way are
known to the second logic because they are good for the first. -/
theorem Ok.finish {γ' : Type} {L : Logic γ} {L' : Logic γ'} {i : ℕ} {n : Node Disk} {w : World}
    {f : γ} {g : γ'} (hknown : ∀ w, L.Known w) (hgood : ∀ {w f}, L.Good w f → L'.Known w)
    (h : L.Ok i (w, f) n) (h' : L'.Ok i (w, g) n) (hw : L.Good w f) (hw' : L'.Good w g) :
    ∃ w' g', L'.At i n (w', g') ∧ Relation.ReflTransGen (L'.Ghost i) g g' := by
  rw [Ok, OkWith] at h h'
  generalize n.script = s at h h'
  induction s generalizing w f g with
  | nil => exact ⟨w, g, h'.1, .refl⟩
  | cons e s ih =>
      obtain ⟨-, hact⟩ := h (w, f) ((L.setting i).rely_refl ⟨hknown w, hw⟩)
      obtain ⟨-, hact'⟩ := h' (w, g) ((L'.setting i).rely_refl ⟨hgood hw, hw'⟩)
      obtain ⟨f₁, -, hw₁, hrest⟩ := hact (hknown _)
      obtain ⟨g₁, hghost, hw₁', hrest'⟩ := hact' (hgood hw₁)
      obtain ⟨w', g', hat, hmoves⟩ := ih hw₁ hw₁' hrest hrest'
      exact ⟨w', g', hat, .head hghost hmoves⟩

/- From here on the rules above are all that is used of `OkWith`; a node whose
script is not known must not be run by unfolding it. -/
attribute [irreducible] OkWith

end Logic

end GeoRaft
