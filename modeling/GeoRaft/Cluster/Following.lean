import GeoRaft.Node.Commit
import GeoRaft.Cluster.Ballots

/-!
What a node does with the entries and acknowledgements of others: a follower
brings its log in line with the log of the owner of its term, one storage call
at a time, and acknowledges it; a leader credits the acknowledgement.
-/

namespace GeoRaft.Replication

open ReplicatedLog Quorum Election Word Script

variable {D : Deployment} {i : ℕ} {p : World × Ghost} {n n' : Node Disk} {pkt : Pkt}

/-- The first `a` entries of `l` are those of the owner of `t`, whose next are `es`. -/
structure Follows (g : Ghost) (t a : ℕ) (l es : List LogEntry) : Prop where
  owner : g.owner t ≠ none
  le : a ≤ l.length
  here : l.take a <+: g.lead t
  next : es <+: (g.lead t).drop a

theorem Follows.mono {g g' : Ghost} (hg : Grows g g') {t a : ℕ} {l es : List LogEntry}
    (h : Follows g t a l es) : Follows g' t a l es :=
  ⟨hg.owner_ne h.owner, h.le, h.here.trans (hg.lead h.owner), h.next.trans ((hg.lead h.owner).drop a)⟩

/-- The next entry of the owner. -/
theorem Follows.head {g : Ghost} {t a : ℕ} {l es : List LogEntry} {e : LogEntry}
    (h : Follows g t a l (e :: es)) : (g.lead t)[a]? = some e := by
  have := getElem?_of_isPrefix h.next (k := 0) rfl
  rwa [List.getElem?_drop, add_zero] at this

/-- One entry further, whatever there is beyond it. -/
theorem Follows.succ {g : Ghost} {t a : ℕ} {l l' es : List LogEntry} {e : LogEntry}
    (h : Follows g t a l (e :: es)) (hle : a + 1 ≤ l'.length) (htake : l'.take (a + 1) = l.take a ++ [e]) :
    Follows g t (a + 1) l' es := by
  have hlead : (g.lead t).take a = l.take a := by
    have hlen : (l.take a).length = a := by
      rw [List.length_take]
      exact min_eq_left h.le
    have := List.prefix_iff_eq_take.mp h.here
    rw [hlen] at this
    exact this.symm
  refine ⟨h.owner, hle, ?_, ?_⟩
  · rw [htake, ← hlead, show (g.lead t).take a ++ [e] = (g.lead t).take (a + 1) by
      rw [List.take_add_one, h.head]
      rfl]
    exact List.take_prefix _ _
  · have hnext := h.next
    rw [List.drop_eq_getElem_cons (List.getElem?_eq_some_iff.mp h.head).1] at hnext
    exact (List.cons_prefix_cons.mp hnext).2

/-- What is committed is in the part that follows the owner. -/
theorem Held.of_lead {N : ℕ} {g : Ghost} {t m a : ℕ} {l es : List LogEntry}
    (hf : Follows g t a l es) (h : Held N g t m (g.lead t)) {k : ℕ} (hkm : k ≤ m) (hka : k ≤ a) :
    Held N g t k l := by
  rcases h with rfl | ⟨T, q, hc, hT, hm, hq⟩
  · exact .inl (by omega)
  · refine .inr ⟨T, q, hc, hT, hkm.trans hm, ?_⟩
    have hpre : q.take k <+: g.lead t := (List.take_prefix_take_left hkm).trans hq
    refine (List.prefix_of_prefix_length_le hpre hf.here ?_).trans (List.take_prefix _ _)
    have := hf.le
    simp only [List.length_take]
    omega

/-- A cut at a place where the log differs from the owner's loses nothing committed. -/
theorem Held.truncate {N : ℕ} {g : Ghost} (hi : Inv (scheme N) g) {t m a : ℕ} {l : List LogEntry}
    (ho : g.owner t ≠ none) {x y : LogEntry} (hx : l[a]? = some x) (hy : (g.lead t)[a]? = some y)
    (hxy : x ≠ y) (h : Held N g t m l) : Held N g t m (l.take a) := by
  rcases h with rfl | ⟨T, q, hc, hT, hm, hq⟩
  · exact .inl rfl
  · have hlead : q <+: g.lead t := hi.lead_of_committed hc hT ho
    have hma : m ≤ a := by
      by_contra hgt
      have hqa : q[a]? = some q[a] := List.getElem?_eq_getElem (by omega)
      have hta : (q.take m)[a]? = some q[a] := by rw [List.getElem?_take_of_lt (by omega), hqa]
      have hxq := getElem?_of_isPrefix hq hta
      have hyq := getElem?_of_isPrefix hlead hqa
      exact hxy (Option.some.inj (hx.symm.trans (hxq.trans (hyq.symm.trans hy))))
    refine .inr ⟨T, q, hc, hT, hm, List.prefix_take_iff.mpr ⟨hq, ?_⟩⟩
    rw [List.length_take]
    omega

theorem Follows.steady {t a : ℕ} {l es : List LogEntry} :
    Steady D i fun q => Follows q.2 t a l es :=
  ⟨fun _ _ hrely h => h.mono hrely.2.1.toGrows, fun h => h, fun h => h⟩

/-- A request whose check succeeds makes the log follow the owner of its term. -/
theorem Follows.start {N : ℕ} {w : World} {g : Ghost} (hg : Good N w g) {src dst k : ℕ}
    {req : AppendEntriesReq} (h : AppendOk N g src dst req) (hk : k < 2 ^ 31)
    (hreq : req.prevLogIdx = u32 ((k : ℤ) - 1)) (hle : k ≤ (g.log i).length)
    (hterm : termBefore (g.log i) k = req.prevLogTerm) :
    Follows g req.term k (g.log i) req.entries := by
  have ho : g.owner req.term ≠ none := by simp [h.owner]
  obtain ⟨k', hk', hlt, hle', hent, hterm'⟩ := h.body
  obtain rfl : k = k' := by
    have := hreq.symm.trans hk'
    unfold u32 at this
    omega
  refine ⟨ho, hle, ?_, hent⟩
  cases k with
  | zero => exact List.nil_prefix
  | succ k =>
      have hx : (g.log i)[k]? = some (g.log i)[k] := List.getElem?_eq_getElem (by omega)
      have hy : (g.lead req.term)[k]? = some (g.lead req.term)[k] :=
        List.getElem?_eq_getElem (by omega)
      rw [hterm', termBefore_succ hx, termBefore_succ hy] at hterm
      rw [(hg.inv.log_traced i).matching (hg.inv.lead_traced ho) hx hy hterm]
      exact List.take_prefix _ _

/-- An entry of the same term in the same place is the same entry. -/
theorem Follows.skip {w : World} {g : Ghost} {t a : ℕ} {es : List LogEntry} {x e : LogEntry}
    (h : Follows g t a n.store.log (e :: es)) (hg : Good D.numNodes w g) (hm : Memory D i n w g)
    (hx : n.store.log[a]? = some x) (ht : x.term = e.term) :
    Follows g t (a + 1) n.store.log es := by
  have htr := hg.inv.log_traced i
  rw [hm.log_eq hg] at htr
  have htake := htr.matching (hg.inv.lead_traced h.owner) hx h.head ht
  have hxe : n.store.log[a]? = some e := by
    have := congrArg (·[a]?) htake
    simpa [List.getElem?_take_of_lt (Nat.lt_succ_self a), h.head] using this
  refine h.succ (List.getElem?_eq_some_iff.mp hx).1 ?_
  rw [List.take_add_one, hxe]
  rfl

/-! ### Storing entries -/

/-- A follower's storage call that changes its log by a move of the replicated log. -/
theorem ok_setLog {P P' : World × Ghost → Prop} (h : (logic D).OkWith P i p n)
    (hP : Steady D i P) {d : Disk} (hr : n.role = .follower)
    (ht : d.currentTerm = n.store.currentTerm) (hlt : d.log.length < 2 ^ 31)
    (hs : ∀ w g, Good D.numNodes w g → Memory D i n w g → P (w, g) →
      Step (scheme D.numNodes) i g { g with log := Function.update g.log i d.log } ∧
      (∀ m, Held D.numNodes g n.store.currentTerm m n.store.log →
        Held D.numNodes g n.store.currentTerm m d.log) ∧
      P' ({ w with disk := Function.update w.disk i d },
        { g with log := Function.update g.log i d.log })) :
    (logic D).OkWith P' i p (n.put d) := by
  refine h.effect hP.stable rfl (fun _ _ _ => trivial) fun w g _ hg hm hPw _ => ?_
  have hg' : Good D.numNodes w g := hg
  have hm' : Memory D i n w g := hm
  obtain ⟨hstep, hheld, hP'⟩ := hs w g hg' hm' hPw
  have hmove : Moves (scheme D.numNodes) i g _ := .single hstep
  refine ⟨_, hmove, hg'.store hmove ?_ (by simp) hlt rfl rfl, ⟨hm'.lt, ?_, hm'.config, ?_,
    hm'.applied, fun hc => ?_, fun hl => ?_⟩, hP'⟩
  · show g.term i = d.currentTerm
    rw [ht, hm'.term_eq hg']
  · exact Function.update_self _ _ _
  · obtain ⟨m, hcm, hc⟩ := hm'.commit
    refine ⟨m, hcm, ?_⟩
    show Held _ _ d.currentTerm m d.log
    rw [ht]
    exact (hheld m hc).mono (hstep.grows hg'.inv) le_rfl List.prefix_rfl
  · exact absurd (hr.symm.trans hc) nofun
  · exact absurd (hr.symm.trans hl) nofun

/-- What holds of a follower while it stores the entries of the packet. -/
def Storing (pkt : Pkt) (t a : ℕ) (l es : List LogEntry) (q : World × Ghost) : Prop :=
  Sent pkt q ∧ Follows q.2 t a l es

theorem Storing.steady {t a : ℕ} {l es : List LogEntry} : Steady D i (Storing pkt t a l es) :=
  Sent.steady.and Follows.steady

section Turn

variable {a : ℕ} {entry : LogEntry} {es : List LogEntry}

theorem logRemoveLastN_ok
    (h : (logic D).OkWith (Storing pkt n.store.currentTerm a n.store.log (entry :: es)) i p n)
    (hr : n.role = .follower) (hlog : n.store.log.length < 2 ^ 31) {x : LogEntry}
    (hx : n.store.log[a]? = some x) (hne : x ≠ entry) :
    (logic D).OkWith (Storing pkt n.store.currentTerm a (n.store.log.take a) (entry :: es)) i p
      (n.logRemoveLastN ((n.store.log.length : ℤ) - a)) := by
  have hlt : a < n.store.log.length := (List.getElem?_eq_some_iff.mp hx).1
  have hst := Node.logRemoveLastN_store hlog hlt
  show (logic D).OkWith _ i p (n.put (n.logRemoveLastN ((n.store.log.length : ℤ) - a)).store)
  rw [hst]
  refine ok_setLog h Storing.steady hr rfl ?_ fun w g hg hm hS => ?_
  · rw [List.length_take]
    omega
  · obtain ⟨hsent, hf⟩ := hS
    have hgt := hm.term_eq hg
    have hgl := hm.log_eq hg
    refine ⟨?_, fun m hheld => hheld.truncate hg.inv hf.owner hx hf.head hne, hsent, ?_⟩
    · have := Step.truncate (S := scheme D.numNodes) (g := g) (i := i) (k := a) (x := x) (y := entry)
        (by rw [hgt]; exact hf.owner) (by rw [hgl]; exact hx) (by rw [hgt]; exact hf.head) hne
      rwa [hgl] at this
    · refine ⟨hf.owner, ?_, ?_, hf.next⟩
      · rw [List.length_take]
        omega
      · rw [List.take_take, min_self]
        exact hf.here

theorem logWrite_ok
    (h : (logic D).OkWith (Storing pkt n.store.currentTerm a n.store.log (entry :: es)) i p n)
    (hr : n.role = .follower) (ha : a = n.store.log.length) (hlt : a + 1 < 2 ^ 31) :
    (logic D).OkWith (Storing pkt n.store.currentTerm (a + 1) (n.store.log ++ [entry]) es) i p
      (n.logWrite n.store.log.length entry) := by
  have hst := Node.logWrite_end (n := n) (by omega) entry none
  show (logic D).OkWith _ i p (n.put (n.logWrite n.store.log.length entry).store)
  rw [hst]
  refine ok_setLog h Storing.steady hr rfl ?_ fun w g hg hm hS => ?_
  · rw [List.length_append, ← ha]
    exact hlt
  · obtain ⟨hsent, hf⟩ := hS
    have hgt := hm.term_eq hg
    have hgl := hm.log_eq hg
    have hlen : (n.store.log ++ [entry]).length = a + 1 := by
      rw [List.length_append, ← ha]
      rfl
    have hall : (n.store.log ++ [entry]).take (a + 1) = n.store.log ++ [entry] :=
      List.take_of_length_le hlen.le
    have hnext : Follows g n.store.currentTerm (a + 1) (n.store.log ++ [entry]) es := by
      refine hf.succ hlen.ge ?_
      rw [hall, ha, List.take_length]
    have hpre : n.store.log ++ [entry] <+: g.lead n.store.currentTerm := by
      rw [← hall]
      exact hnext.here
    refine ⟨?_, fun m hheld => hheld.mono (Grows.refl g) le_rfl (List.prefix_append _ _), hsent, ?_⟩
    · have := Step.extend (S := scheme D.numNodes) (g := g) (i := i) (e := entry)
        (by rw [hgt]; exact hf.owner) (by rw [hgt, hgl]; exact hpre)
      rwa [hgl] at this
    · exact ⟨hnext.owner, hnext.le, hnext.here, hnext.next⟩

end Turn

/-- The loop of the source: every entry is there already, or takes the place of
another and of all behind it, or is new at the end. -/
theorem storeEntries_ok {k j : ℕ} {es : List LogEntry}
    (h : (logic D).OkWith (Storing pkt n.store.currentTerm (k + j) n.store.log es) i p n)
    (hr : n.role = .follower) (hlog : n.store.log.length < 2 ^ 31)
    (hle : k + j ≤ n.store.log.length) (hlt : k + j + es.length < 2 ^ 31) :
    (logic D).OkWith (Storing pkt n.store.currentTerm (k + j + es.length)
        (Node.storeEntries k j n.store.log.length es n).store.log []) i p
      (Node.storeEntries k j n.store.log.length es n) := by
  induction es generalizing n j with
  | nil => exact h
  | cons entry es ih =>
      rw [List.length_cons] at hlt
      have hsucc : k + j + (entry :: es).length = k + (j + 1) + es.length := by
        rw [List.length_cons]
        omega
      rw [Node.storeEntries_cons hlog hle, hsucc]
      -- a write at the end, and the turns after it
      have hwrite : ∀ {m : Node Disk}, m.role = .follower →
          m.store.currentTerm = n.store.currentTerm → m.store.log.length = k + j →
          (logic D).OkWith (Storing pkt m.store.currentTerm (k + j) m.store.log (entry :: es)) i p m →
          (logic D).OkWith (Storing pkt n.store.currentTerm (k + (j + 1) + es.length)
            (Node.storeEntries k (j + 1) (k + (j + 1) : ℕ) es
              (m.logWrite m.store.log.length entry)).store.log []) i p
            (Node.storeEntries k (j + 1) (k + (j + 1) : ℕ) es
              (m.logWrite m.store.log.length entry)) := by
        intro m hmr hmt hml hm
        have hst := Node.logWrite_end (n := m) (by omega) entry none
        have hw := logWrite_ok hm hmr hml.symm (by omega)
        have hwr : (m.logWrite m.store.log.length entry).role = .follower := hmr
        generalize m.logWrite m.store.log.length entry = m' at hst hw hwr ⊢
        have hlen : m'.store.log.length = k + (j + 1) := by
          rw [hst, List.length_append, hml]
          rfl
        have hterm : m'.store.currentTerm = n.store.currentTerm := by rw [hst, hmt]
        have hrest := ih (n := m') (j := j + 1) ?_ hwr (by omega) hlen.ge (by omega)
        · rwa [hterm, hlen] at hrest
        · rw [hst]
          exact hw
      split
      · rename_i hin
        have hx : n.store.log[k + j]? = some n.store.log[k + j] := List.getElem?_eq_getElem hin
        rw [Node.raftGetLogTerm_eq hlog hx]
        split
        · rename_i hne
          have hxe : n.store.log[k + j] ≠ entry := fun heq => hne (by rw [heq])
          have hcut := logRemoveLastN_ok h hr hlog hx hxe
          have hst := Node.logRemoveLastN_store hlog hin
          have hmr : (n.logRemoveLastN ((n.store.log.length : ℤ) - (k + j : ℕ))).role = .follower := hr
          generalize n.logRemoveLastN ((n.store.log.length : ℤ) - (k + j : ℕ)) = m at hcut hst hmr ⊢
          have hlen : m.store.log.length = k + j := by
            rw [hst, List.length_take, min_eq_left hle]
          have := hwrite hmr (by rw [hst]) hlen (by rw [hst]; exact hcut)
          rwa [hlen] at this
        · rename_i heq
          refine ih (n := n) (j := j + 1) (h.mono fun q hat hS => ⟨hS.1, ?_⟩) hr hlog hin (by omega)
          obtain ⟨-, hg, hm⟩ := hat
          exact hS.2.skip hg hm hx (not_not.mp heq)
      · rename_i hout
        exact hwrite hr rfl (by omega) h

/-! ### Requests -/

/-- The commit index of a follower after a request it accepted. -/
theorem advanceCommit_ok {k : ℕ} {req : AppendEntriesReq}
    (h : (logic D).OkWith (Storing pkt n.store.currentTerm (k + req.entries.length) n.store.log [])
      i p n)
    (hpkt : pkt.rpc = .appendEntriesReq req) (ht : req.term = n.store.currentTerm)
    (hr : n.role = .follower) (hlt : k + req.entries.length < 2 ^ 31)
    (hreq : req.prevLogIdx = u32 ((k : ℤ) - 1)) :
    (logic D).OkWith (Storing pkt n.store.currentTerm (k + req.entries.length) n.store.log []) i p
      (n.advanceCommit req) := by
  unfold Node.advanceCommit
  split
  · rename_i hgt
    have hlast : i32 (u32 ((req.prevLogIdx : ℤ) + req.nEntries)) = (k + req.entries.length : ℕ) - 1 :=
      Node.lastNewEntryIdx_eq hlt hreq
    rw [hlast]
    refine applyToStateMachine_ok ?_ Storing.steady
    refine h.mem rfl fun w g _ hg hm hS => ?_
    have hm' : Memory D i n w g := hm
    have hg' : Good D.numNodes w g := hg
    have happend := hg'.packets pkt hS.1
    rw [PacketOk, hpkt] at happend
    obtain ⟨m, hcm, hheld⟩ := happend.commit
    rw [ht] at hheld
    refine ⟨hm'.lt, hm'.disk, hm'.config, ?_, hm'.applied, fun hc => ?_, fun hl => ?_⟩
    · dsimp only
      split
      · exact ⟨m, hcm, hheld.of_lead hS.2 le_rfl (by omega)⟩
      · exact ⟨k + req.entries.length, by omega, hheld.of_lead hS.2 (by omega) le_rfl⟩
    · exact absurd (hr.symm.trans hc) (fun h => by cases h)
    · exact absurd (hr.symm.trans hl) (fun h => by cases h)
  · exact h

/-- The response to a request: a success acknowledges the log up to the last entry
of the request, unless it still carries the term the node came from. -/
theorem respond_ok {a curTerm : ℕ} {es : List LogEntry} {req : AppendEntriesReq} {x : ℕ}
    (h : (logic D).OkWith (Storing pkt n.store.currentTerm a n.store.log es) i p n)
    (hpkt : pkt.rpc = .appendEntriesReq req) (hdst : pkt.dst = i)
    (ht : req.term = n.store.currentTerm) (hcur : curTerm ≤ req.term) (hx : i32 x + 1 = a) :
    (logic D).Ok i p (n.sendAppendEntriesResponse req.leaderId curTerm x 1) := by
  refine h.effect Storing.steady.stable rfl (fun _ _ hm => hm.id_eq) fun w g _ hg hm hS _ => ?_
  have hg' : Good D.numNodes w g := hg
  have hm' : Memory D i n w g := hm
  obtain ⟨hsent, hf⟩ := hS
  have happend := hg'.packets pkt hsent
  rw [PacketOk, hpkt] at happend
  have hid : n.config.id = i := hm'.id_eq
  have hgt : g.term i = req.term := (hm'.term_eq hg').trans ht.symm
  have hack : Step (scheme D.numNodes) i g
      { g with acks := insert (req.term, i, n.store.log.take a) g.acks } := by
    have := Step.ack (S := scheme D.numNodes) (g := g) (i := i) (p := n.store.log.take a)
      (by rw [hgt, ht]; exact hf.owner) (by rw [hgt, ht]; exact hf.here)
      (by rw [hm'.log_eq hg']; exact List.take_prefix _ _)
    rwa [hgt] at this
  have hgrows := hack.grows hg'.inv
  rw [hid]
  refine ⟨_, .single hack, hg'.send (.single hack) rfl rfl rfl rfl ?_,
    (hm'.grow hgrows rfl rfl).congr hm'.disk rfl rfl rfl rfl rfl rfl rfl rfl rfl rfl, trivial⟩
  intro _
  rcases eq_or_lt_of_le hcur with heq | hlt
  · refine .inr ⟨?_, n.store.log.take a, ?_, ?_⟩
    · rw [happend.leaderId, ← hdst]
      exact happend.ne
    · show (curTerm, i, _) ∈ insert (req.term, i, _) g.acks
      rw [heq]
      exact Set.mem_insert _ _
    · rw [List.length_take, min_eq_left hf.le]
      exact hx
  · refine .inl ⟨req.term, hlt, ?_⟩
    show g.owner req.term = some req.leaderId
    rw [happend.leaderId]
    exact happend.owner

theorem acceptAppendEntries_ok {env : Env} {curTerm k : ℕ} {req : AppendEntriesReq}
    (h : (logic D).OkWith (Sent pkt) i p n) (hpkt : pkt.rpc = .appendEntriesReq req)
    (hdst : pkt.dst = i) (ht : req.term = n.store.currentTerm) (hcur : curTerm ≤ req.term)
    (hr : n.role = .follower) (hlog : n.store.log.length < 2 ^ 31)
    (hreq : req.prevLogIdx = u32 ((k : ℤ) - 1)) (hlt : k + req.entries.length < 2 ^ 31) :
    (logic D).Ok i p (n.acceptAppendEntries env curTerm req) := by
  unfold Node.acceptAppendEntries
  dsimp only
  generalize hm : Node.setFaultDetectTimer env _ = m
  obtain ⟨hms, hmr, hm⟩ : m.store = n.store ∧ m.role = n.role ∧ (logic D).OkWith (Sent pkt) i p m := by
    subst hm
    split
    · exact ⟨rfl, rfl, ok_mem h rfl rfl rfl rfl rfl rfl rfl rfl⟩
    · exact ⟨rfl, rfl, ok_mem h rfl rfl rfl rfl rfl rfl rfl rfl⟩
  rw [← hms] at ht hlog
  rw [hr] at hmr
  have hneg : ¬m.logLength < 0 := by
    rw [Node.logLength_eq hlog]
    omega
  rw [if_neg hneg]
  split
  · refine ok_send hm.ok Steady.true fun _ _ _ _ _ hne => ?_
    exact absurd rfl hne
  · rename_i hcheck
    rw [not_not, Node.prevMatches_iff hlog (by omega) hreq] at hcheck
    obtain ⟨hle, hterm⟩ := hcheck
    have hstart : (logic D).OkWith (Storing pkt m.store.currentTerm (k + 0) m.store.log req.entries)
        i p m := by
      refine hm.mono fun q hat hsent => ⟨hsent, ?_⟩
      obtain ⟨-, hg, hmem⟩ := hat
      have hg' : Good D.numNodes q.1 q.2 := hg
      have happend := hg'.packets pkt hsent
      rw [PacketOk, hpkt] at happend
      have hgl := Memory.log_eq hmem hg'
      have := Follows.start (i := i) hg' happend (by omega) hreq (by rw [hgl]; exact hle)
        (by rw [hgl]; exact hterm)
      rwa [hgl, ht] at this
    have hstored := storeEntries_ok hstart hmr hlog hle hlt
    have hquiet := Node.storeEntries_quiet k 0 m.store.log.length req.entries m
    rw [Node.newIdx_eq (by omega) hreq, Node.logLength_eq hlog]
    generalize Node.storeEntries k 0 m.store.log.length req.entries m = m' at hstored hquiet ⊢
    rw [← hquiet.currentTerm] at hstored ht
    have hadv := advanceCommit_ok hstored hpkt ht (hquiet.role.trans hmr) hlt hreq
    have hst := m'.advanceCommit_store req
    generalize m'.advanceCommit req = m'' at hadv hst ⊢
    rw [← hst] at hadv ht
    refine respond_ok hadv hpkt hdst ht hcur ?_
    rw [AppendEntriesReq.nEntries, Node.lastNewEntryIdx_eq hlt hreq]
    omega

theorem handleAppendEntriesRequest_ok {env : Env} {k : ℕ} {req : AppendEntriesReq}
    (h : (logic D).OkWith (Sent pkt) i p n) (hpkt : pkt.rpc = .appendEntriesReq req)
    (hdst : pkt.dst = i) (hterm : n.store.currentTerm < 2 ^ 31) (hreqt : req.term < 2 ^ 31)
    (hlead : n.role = .leader → req.term ≠ n.store.currentTerm)
    (hlog : n.store.log.length < 2 ^ 31) (hreq : req.prevLogIdx = u32 ((k : ℤ) - 1))
    (hlt : k + req.entries.length < 2 ^ 31) :
    (logic D).Ok i p (n.handleAppendEntriesRequest env req) := by
  unfold Node.handleAppendEntriesRequest
  rw [Node.get_currentTerm, i32_of_nat (by omega), if_neg (by omega), u32_of_nat (by omega)]
  dsimp only
  split
  · refine ok_send h.ok Steady.true fun _ _ _ _ _ hne => ?_
    exact absurd rfl hne
  · rename_i hstale
    split
    · have hst := Node.becomeFollower_store env n hreqt req.leaderId
      have hf : (logic D).OkWith (Sent pkt) i p (n.becomeFollower env req.term req.leaderId) :=
        becomeFollower_ok h hreqt (by omega)
      refine acceptAppendEntries_ok hf hpkt hdst ?_ (by omega) rfl ?_ hreq hlt
      · rw [hst]
      · rw [hst]
        exact hlog
    · rename_i hstay
      have hsame : req.term = n.store.currentTerm := by omega
      -- the leader of a term gets no request of that term
      have hrole : n.role = .follower := by
        cases hr : n.role with
        | follower => rfl
        | candidate => exact absurd (.inr ⟨hsame, hr⟩) hstay
        | leader => exact absurd hsame (hlead hr)
      have hm : (logic D).OkWith (Sent pkt) i p { n with leaderId := req.leaderId } :=
        ok_mem h rfl rfl rfl rfl rfl rfl rfl rfl
      exact acceptAppendEntries_ok hm hpkt hdst hsame (by omega) hrole hlog hreq hlt

/-! ### Acknowledgements -/

/-- A leader that credits an acknowledgement of its own term. -/
theorem Leads.credit {w : World} {g : Ghost} (hg : Good D.numNodes w g) (hm : Memory D i n w g)
    (hl : Leads i n g) {resp : AppendEntriesRes} (hpkt : AckOk g pkt.src i resp)
    (hs : resp.success ≠ 0) (ht : resp.term = n.store.currentTerm) :
    Leads i { n with
      matchIndex := n.matchIndex.set pkt.src (i32 resp.newMatchIndex)
      nextIndex := n.nextIndex.set pkt.src n.store.log.length } g := by
  refine ⟨hl.owner, fun x hx => ?_, fun {j m} hj hpos => ?_⟩
  · rcases List.mem_or_eq_of_mem_set hx with hx | rfl
    · exact hl.next x hx
    · exact le_rfl
  · rcases hpkt hs with ⟨t, hlt, hown⟩ | ⟨hne, q, hq, hlen⟩
    · -- the node would have had to reach the later term
      have := (hg.inv.owner_log hown).1
      rw [hm.term_eq hg] at this
      omega
    · dsimp only at hj
      rw [List.getElem?_set] at hj
      split at hj
      · rename_i heq
        split at hj
        · obtain rfl := Option.some.inj hj
          subst heq
          exact ⟨hne, q, by rw [← ht]; exact hq, hlen⟩
        · cases hj
      · exact hl.acked hj hpos

theorem handleAppendEntriesResponse_ok {env : Env} {resp : AppendEntriesRes}
    (h : (logic D).OkWith (Sent pkt) i p n) (hpkt : pkt.rpc = .appendEntriesRes resp)
    (hdst : pkt.dst = i) (hterm : n.store.currentTerm < 2 ^ 31) (hresp : resp.term < 2 ^ 31)
    (hlog : n.store.log.length < 2 ^ 31) (hpos : 0 ≤ n.commitIndex + 1) :
    (logic D).Ok i p (n.handleAppendEntriesResponse env pkt.src resp) := by
  unfold Node.handleAppendEntriesResponse
  dsimp only
  rw [get_currentTerm_eq hterm, Node.logLength_eq hlog, u32_of_nat (by omega)]
  split
  · exact (becomeFollower_ok h hresp (by omega)).ok
  split
  · exact h.ok
  · rename_i hnot hstay
    push Not at hstay
    obtain ⟨hrole, hge⟩ := hstay
    split
    · rename_i hs
      let n₁ : Node Disk := { n with
        matchIndex := n.matchIndex.set pkt.src (i32 resp.newMatchIndex)
        nextIndex := n.nextIndex.set pkt.src n.store.log.length }
      have h₁ : (logic D).Ok i p n₁ := by
        refine Logic.OkWith.ok (P := Sent pkt) (h.mem rfl fun w g _ hg hm hsent => ?_)
        have hg' : Good D.numNodes w g := hg
        have hm' : Memory D i n w g := hm
        have hack := hg'.packets pkt hsent
        rw [PacketOk, hpkt, hdst] at hack
        refine ⟨hm'.lt, hm'.disk, hm'.config, hm'.commit, hm'.applied, hm'.candidate, fun _ => ?_⟩
        exact (hm'.leader hrole).credit hg' hm' hack hs (by omega)
      exact applyToStateMachine_ok (commitLoop_ok h₁ hrole hlog hpos) Steady.true
    · split
      · refine h.ok.mem rfl fun w g _ hg hm => ?_
        have hm' : Memory D i n w g := hm
        refine ⟨hm'.lt, hm'.disk, hm'.config, hm'.commit, hm'.applied, hm'.candidate, fun _ => ?_⟩
        obtain ⟨hown, hnext, hack⟩ := hm'.leader hrole
        refine ⟨hown, fun x hx => ?_, hack⟩
        obtain ⟨j, hj⟩ := List.mem_iff_getElem?.mp hx
        dsimp only at hj
        rw [List.getElem?_modify] at hj
        obtain ⟨y, hy, rfl⟩ := Option.map_eq_some_iff.mp hj
        have hle := hnext y (List.mem_of_getElem? hy)
        dsimp only
        split <;> omega
      · exact h.ok


/-! ### Client requests -/

theorem recordOutstanding_ok (h : (logic D).Ok i p n) (req : ProcReq) (logLen : ℤ) :
    (logic D).Ok i p (n.recordOutstanding req logLen) := by
  unfold Node.recordOutstanding
  split
  · exact h
  · exact ok_mem h rfl rfl rfl rfl rfl rfl rfl rfl

theorem handleProcRequest_ok {req : ProcReq} {src : ℕ} (h : (logic D).Ok i p n)
    (hid : n.config.id = i) (hterm : n.store.currentTerm < 2 ^ 31)
    (hlog : n.store.log.length < 2 ^ 31)
    (hlog' : (n.handleProcRequest req src).store.log.length < 2 ^ 31) :
    (logic D).Ok i p (n.handleProcRequest req src) := by
  by_cases hr : n.role = .leader
  · rw [Node.handleProcRequest_eq hterm hr] at hlog' ⊢
    rw [Node.broadcastAppendEntries_store, Node.recordOutstanding_store,
      Node.appendLogEntry_store hlog, List.length_append, List.length_singleton] at hlog'
    have hst := Node.appendLogEntry_store hlog (n.entryOf req)
    have hconfig : (n.appendLogEntry (n.entryOf req)).config.id = i := by
      rw [Node.appendLogEntry_eq hlog, Node.logWrite, Node.put_config, hid]
    have happ : (logic D).Ok i p (n.appendLogEntry (n.entryOf req)) :=
      appendLogEntry_ok h hr rfl hlog'
    generalize n.appendLogEntry (n.entryOf req) = m at happ hst hconfig ⊢
    refine broadcastAppendEntries_ok (recordOutstanding_ok happ req _) ?_ ?_
    · rw [Node.recordOutstanding_config, hconfig]
    · rw [Node.recordOutstanding_store, hst]
      exact hterm
  · rw [Node.handleProcRequest, if_pos hr]
    exact ok_send h Steady.true fun _ _ _ _ _ => trivial

end GeoRaft.Replication
