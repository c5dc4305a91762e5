import GeoRaft.Node.Raft

/-!
When the loops of a node send.

A broadcast sends as soon as there is another node, and applying sends as soon as
one of the entries it reads belongs to an outstanding request.
-/

namespace GeoRaft.Node

variable {σ : Type}

/-- No packet is handed to the transport. -/
def Silent (n : Node σ) : Prop := ∀ pkt, .send pkt ∉ n.script

/-- There is nobody to send to. -/
def Alone (config : Config) : Prop := ∀ i < config.numNodes, i = config.id

theorem silent_of_eq {n n' : Node σ} (h : n'.script = n.script) : n'.Silent ↔ n.Silent := by
  rw [Silent, Silent, h]

theorem silent_append {n n' : Node σ} {e : Effect σ} (h : n'.script = n.script ++ [e])
    (he : ∀ pkt, e ≠ .send pkt) : n'.Silent ↔ n.Silent := by
  rw [Silent, Silent, h]
  constructor
  · exact fun hs pkt hmem => hs pkt (List.mem_append_left _ hmem)
  · intro hs pkt hmem
    rcases List.mem_append.mp hmem with hmem | hmem
    · exact hs pkt hmem
    · exact he pkt (List.mem_singleton.mp hmem).symm

theorem not_silent_of_mem {n : Node σ} {pkt : Pkt} (h : .send pkt ∈ n.script) : ¬n.Silent :=
  fun hs => hs pkt h

theorem send_mem (n : Node σ) (dst : ℕ) (rpc : Rpc) :
    .send ⟨dst, n.config.id, rpc⟩ ∈ (n.send dst rpc).script :=
  List.mem_append_right _ (List.mem_singleton_self _)

/-! ### Broadcasts -/

theorem forOthers_alone (n : Node σ) (body : Node σ → ℕ → Node σ) (h : Alone n.config) :
    n.forOthers body = n := by
  refine forOthers_induct (motive := fun _ m => m = n) n rfl ?_
  rintro k m hk rfl
  rw [if_pos (h k hk)]

/-- Every other node is sent something, and what was sent before stays sent. -/
theorem forOthers_sends (n : Node σ) (rpc : Node σ → ℕ → Rpc) :
    (∀ e ∈ n.script, e ∈ (n.forOthers fun m i => m.send i (rpc m i)).script) ∧
      ∀ i < n.config.numNodes, i ≠ n.config.id →
        ∃ pkt, .send pkt ∈ (n.forOthers fun m i => m.send i (rpc m i)).script := by
  refine forOthers_induct (motive := fun k m => (∀ e ∈ n.script, e ∈ m.script) ∧
    ∀ i < k, i ≠ n.config.id → ∃ pkt, .send pkt ∈ m.script) n ⟨fun _ => id, by simp⟩ ?_
  rintro k m - ⟨hmono, hsent⟩
  split
  · rename_i hk
    refine ⟨hmono, fun i hi hne => hsent i ?_ hne⟩
    omega
  · refine ⟨fun e he => List.mem_append_left _ (hmono e he), fun i hi hne => ?_⟩
    rcases Nat.lt_succ_iff_lt_or_eq.mp hi with hlt | rfl
    · obtain ⟨pkt, hmem⟩ := hsent i hlt hne
      exact ⟨pkt, List.mem_append_left _ hmem⟩
    · exact ⟨_, send_mem m _ _⟩

theorem silent_forOthers_iff (n : Node σ) (rpc : Node σ → ℕ → Rpc) :
    (n.forOthers fun m i => m.send i (rpc m i)).Silent ↔ n.Silent ∧ Alone n.config := by
  obtain ⟨hmono, hsent⟩ := forOthers_sends n rpc
  constructor
  · intro hs
    refine ⟨fun pkt hmem => hs pkt (hmono _ hmem), fun i hi => ?_⟩
    by_contra hne
    obtain ⟨pkt, hmem⟩ := hsent i hi hne
    exact hs pkt hmem
  · rintro ⟨hs, halone⟩
    rwa [forOthers_alone n _ halone]

variable [Storage σ]

theorem silent_sendHeartbeats_iff {n : Node σ} (hr : n.role = .leader) :
    n.sendHeartbeats.Silent ↔ n.Silent ∧ Alone n.config := by
  rw [sendHeartbeats, if_neg (not_not.mpr hr)]
  exact silent_forOthers_iff n _

/-! ### Applying -/

/-- An entry about to be applied belongs to an outstanding request. -/
def Owes (n : Node σ) : Prop :=
  ∃ idx, n.lastApplied < idx ∧ idx ≤ n.commitIndex ∧ ∃ entry, n.logRead idx = some entry ∧
    ∃ r ∈ n.outstandingReqs,
      (r.active && r.clientId == entry.clientId && r.cmdSeqno == entry.cmdSeqno) = true

/-- The node that has read the next entry, before it looks for the request. -/
def appliedNext (n : Node σ) (entry : LogEntry) : Node σ :=
  ({ n with lastApplied := n.lastApplied + 1 } : Node σ).note (.apply (n.lastApplied + 1) entry)

theorem applyNext_none {n : Node σ} (h : n.logRead (n.lastApplied + 1) = none) :
    n.applyNext = { n with lastApplied := n.lastApplied + 1 } := by
  have hread : ({ n with lastApplied := n.lastApplied + 1 } : Node σ).logRead (n.lastApplied + 1) =
      none := h
  rw [applyNext]
  dsimp only
  rw [hread]

theorem applyNext_read {n : Node σ} {entry : LogEntry}
    (h : n.logRead (n.lastApplied + 1) = some entry) :
    n.applyNext =
      if n.role = .leader then (n.appliedNext entry).replyOutstanding (n.lastApplied + 1) entry
      else n.appliedNext entry := by
  have hread : ({ n with lastApplied := n.lastApplied + 1 } : Node σ).logRead (n.lastApplied + 1) =
      some entry := h
  rw [applyNext]
  dsimp only
  rw [hread]
  rfl

theorem applyNext_some {n : Node σ} {entry : LogEntry} (hr : n.role = .leader)
    (h : n.logRead (n.lastApplied + 1) = some entry) :
    n.applyNext = (n.appliedNext entry).replyOutstanding (n.lastApplied + 1) entry := by
  rw [applyNext_read h, if_pos hr]

theorem replyOutstanding_unowed {n : Node σ} {idx : ℤ} {entry : LogEntry}
    (h : ∀ r ∈ n.outstandingReqs,
      (r.active && r.clientId == entry.clientId && r.cmdSeqno == entry.cmdSeqno) = false) :
    n.replyOutstanding idx entry = n := by
  rw [replyOutstanding, List.findIdx?_eq_none_iff.mpr h]

theorem replyOutstanding_owed {n : Node σ} {idx : ℤ} {entry : LogEntry} {r : OutstandingReq}
    (hr : r ∈ n.outstandingReqs)
    (h : (r.active && r.clientId == entry.clientId && r.cmdSeqno == entry.cmdSeqno) = true) :
    ∃ pkt, .send pkt ∈ (n.replyOutstanding idx entry).script := by
  rw [replyOutstanding]
  split
  · rename_i hnone
    have hfalse := List.findIdx?_eq_none_iff.mp hnone r hr
    rw [h] at hfalse
    cases hfalse
  · exact ⟨_, send_mem (n.note (.reply idx entry)) _ _⟩

theorem mem_script_replyOutstanding {n : Node σ} {e : Effect σ} (h : e ∈ n.script) (idx : ℤ)
    (entry : LogEntry) : e ∈ (n.replyOutstanding idx entry).script := by
  rw [replyOutstanding]
  split
  · exact h
  · exact List.mem_append_left _ (List.mem_append_left _ h)

theorem mem_script_applyLoop {n : Node σ} {e : Effect σ} (h : e ∈ n.script) (fuel : ℕ) :
    e ∈ (applyLoop fuel n).script := by
  induction fuel generalizing n with
  | zero => exact h
  | succ fuel ih =>
      rw [applyLoop]
      split
      · refine ih ?_
        rw [applyNext]
        dsimp only
        split
        · exact h
        · have hnote : ∀ event, e ∈ (({ n with lastApplied := n.lastApplied + 1 } : Node σ).note
              event).script := fun event => List.mem_append_left _ h
          split
          · exact mem_script_replyOutstanding (hnote _) _ _
          · exact hnote _
      · exact h

/-- What is owed is owed for the next entry, or after it. -/
theorem owes_iff_of_lt {n : Node σ} (h : n.lastApplied < n.commitIndex) :
    n.Owes ↔ (∃ entry, n.logRead (n.lastApplied + 1) = some entry ∧ ∃ r ∈ n.outstandingReqs,
        (r.active && r.clientId == entry.clientId && r.cmdSeqno == entry.cmdSeqno) = true) ∨
      ({ n with lastApplied := n.lastApplied + 1 } : Node σ).Owes := by
  constructor
  · rintro ⟨idx, hlo, hhi, entry, hread, howed⟩
    rcases eq_or_ne idx (n.lastApplied + 1) with rfl | hne
    · exact .inl ⟨entry, hread, howed⟩
    · refine .inr ⟨idx, ?_, hhi, entry, hread, howed⟩
      show n.lastApplied + 1 < idx
      omega
  · rintro (⟨entry, hread, howed⟩ | ⟨idx, hlo, hhi, entry, hread, howed⟩)
    · exact ⟨n.lastApplied + 1, by omega, by omega, entry, hread, howed⟩
    · have hlo : n.lastApplied + 1 < idx := hlo
      exact ⟨idx, by omega, hhi, entry, hread, howed⟩

theorem silent_applyLoop_iff {n : Node σ} (hr : n.role = .leader) {fuel : ℕ}
    (hfuel : fuel = (n.commitIndex - n.lastApplied).toNat) :
    (applyLoop fuel n).Silent ↔ n.Silent ∧ ¬n.Owes := by
  induction fuel generalizing n with
  | zero =>
      rw [applyLoop]
      refine (and_iff_left ?_).symm
      rintro ⟨idx, hlo, hhi, -⟩
      omega
  | succ fuel ih =>
      have hlt : n.lastApplied < n.commitIndex := by omega
      rw [applyLoop, if_pos hlt, owes_iff_of_lt hlt]
      cases hread : n.logRead (n.lastApplied + 1) with
      | none =>
          have hnext := ih (n := { n with lastApplied := n.lastApplied + 1 }) hr (by dsimp only; omega)
          rw [applyNext_none hread, hnext]
          simp [Silent]
      | some entry =>
          rw [applyNext_some hr hread]
          by_cases howed : ∃ r ∈ n.outstandingReqs,
              (r.active && r.clientId == entry.clientId && r.cmdSeqno == entry.cmdSeqno) = true
          · obtain ⟨r, hmem, hmatch⟩ := howed
            refine iff_of_false ?_ fun h => h.2 (.inl ⟨entry, rfl, r, hmem, hmatch⟩)
            obtain ⟨pkt, hsend⟩ := @replyOutstanding_owed σ _ (n.appliedNext entry)
              (n.lastApplied + 1) entry r hmem hmatch
            exact not_silent_of_mem (mem_script_applyLoop hsend fuel)
          · have hunowed : (n.appliedNext entry).replyOutstanding (n.lastApplied + 1) entry =
                n.appliedNext entry := by
              refine replyOutstanding_unowed fun r hmem => ?_
              by_contra hne
              rw [Bool.not_eq_false] at hne
              exact howed ⟨r, hmem, hne⟩
            have hfirst : ¬∃ entry', some entry = some entry' ∧ ∃ r ∈ n.outstandingReqs,
                (r.active && r.clientId == entry'.clientId && r.cmdSeqno == entry'.cmdSeqno) = true := by
              rintro ⟨entry', heq, hr'⟩
              obtain rfl := Option.some.inj heq
              exact howed hr'
            have hnext := ih (n := n.appliedNext entry) hr (by
              show fuel = (n.commitIndex - (n.lastApplied + 1)).toNat
              omega)
            have hsilent : (n.appliedNext entry).Silent ↔ n.Silent := silent_append rfl (by simp)
            have howes : (n.appliedNext entry).Owes ↔
                ({ n with lastApplied := n.lastApplied + 1 } : Node σ).Owes := Iff.rfl
            rw [hunowed, hnext, hsilent, howes, or_iff_right hfirst]

/-- A leader that applies is silent unless it owes a reply. -/
theorem silent_applyToStateMachine_iff {n : Node σ} (hr : n.role = .leader) :
    n.applyToStateMachine.Silent ↔ n.Silent ∧ ¬n.Owes :=
  silent_applyLoop_iff hr rfl

end GeoRaft.Node
