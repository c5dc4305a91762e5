import Mathlib.Data.List.Basic
import GeoRaft.Node.Raft

/-!
The effects of a handler in their order.

What a node says is judged by the storage at the moment it says it, which is
neither the storage it started from nor the one it ends with. `Speaks P s n`
says that the script of `n` leads from the storage `s` to the storage of `n`,
and that every packet of it is sent while the storage satisfies `P` with it.
-/

namespace GeoRaft

open Word

variable {σ : Type}

/-- The storage once the effects have been carried out. -/
def storeAfter (s : σ) : List (Effect σ) → σ
  | [] => s
  | .store s' _ :: es => storeAfter s' es
  | .send _ :: es => storeAfter s es
  | .note _ :: es => storeAfter s es
  | .exit :: es => storeAfter s es

@[simp] theorem storeAfter_append (s : σ) (es fs : List (Effect σ)) :
    storeAfter s (es ++ fs) = storeAfter (storeAfter s es) fs := by
  induction es generalizing s with
  | nil => rfl
  | cons e es ih => cases e <;> simp [storeAfter, ih]

/-- Every packet is sent at a moment at which `P` holds of the storage and it. -/
def EverySend (P : σ → Pkt → Prop) (s : σ) (es : List (Effect σ)) : Prop :=
  ∀ pre pkt post, es = pre ++ .send pkt :: post → P (storeAfter s pre) pkt

theorem everySend_nil (P : σ → Pkt → Prop) (s : σ) : EverySend P s [] := by
  intro pre pkt post h
  simp at h

theorem everySend_snoc {P : σ → Pkt → Prop} {s : σ} {es : List (Effect σ)} {e : Effect σ}
    (hes : EverySend P s es) (he : ∀ pkt, e = .send pkt → P (storeAfter s es) pkt) :
    EverySend P s (es ++ [e]) := by
  intro pre pkt post h
  rcases List.eq_nil_or_concat post with rfl | ⟨init, last, rfl⟩
  · obtain ⟨rfl, hlast⟩ := List.append_inj' h rfl
    exact he pkt (List.singleton_inj.mp hlast)
  · rw [List.concat_eq_append, ← List.cons_append, ← List.append_assoc] at h
    exact hes pre pkt init (List.append_inj' h rfl).1

namespace Node

structure Speaks (P : σ → Pkt → Prop) (s : σ) (n : Node σ) : Prop where
  store : storeAfter s n.script = n.store
  sends : EverySend P s n.script

variable {P : σ → Pkt → Prop} {s : σ} {n n' : Node σ}

theorem speaks_of_idle (h : n.script = []) : Speaks P n.store n where
  store := by rw [h, storeAfter]
  sends := by
    rw [h]
    exact everySend_nil P _

/-- A change of the memory alone. -/
theorem Speaks.mem (h : Speaks P s n) (hs : n'.script = n.script) (hd : n'.store = n.store) :
    Speaks P s n' where
  store := by rw [hs, hd, h.store]
  sends := by
    rw [hs]
    exact h.sends

theorem Speaks.put (h : Speaks P s n) (s' : σ) (event : Option Event) :
    Speaks P s (n.put s' event) where
  store := by simp [storeAfter]
  sends := everySend_snoc h.sends (by simp)

theorem Speaks.note (h : Speaks P s n) (event : Event) : Speaks P s (n.note event) where
  store := by simpa [Node.note, storeAfter] using h.store
  sends := everySend_snoc h.sends (by simp)

theorem Speaks.send (h : Speaks P s n) {dst : ℕ} {rpc : Rpc}
    (hP : P n.store ⟨dst, n.config.id, rpc⟩) : Speaks P s (n.send dst rpc) where
  store := by simpa [Node.send, storeAfter] using h.store
  sends := by
    refine everySend_snoc h.sends fun pkt hpkt => ?_
    obtain rfl := Effect.send.inj hpkt
    rwa [h.store]

/-- A loop that sends to all others and does nothing else. -/
theorem Speaks.forOthers (h : Speaks P s n) {rpc : Node σ → ℕ → Rpc}
    (hP : ∀ m i, m.store = n.store → m.config = n.config →
      P n.store ⟨i, n.config.id, rpc m i⟩) :
    Speaks P s (n.forOthers fun m i => m.send i (rpc m i)) := by
  refine (forOthers_induct
    (motive := fun _ m => Speaks P s m ∧ m.store = n.store ∧ m.config = n.config) n ⟨h, rfl, rfl⟩
    fun k m _ ⟨hm, hs, hc⟩ => ?_).1
  split
  · exact ⟨hm, hs, hc⟩
  · refine ⟨hm.send ?_, hs, hc⟩
    rw [hs, hc]
    exact hP m k hs hc

variable [Storage σ]

theorem Speaks.set (h : Speaks P s n) (f : PersistentField) (v : ℕ) (event : Option Event) :
    Speaks P s (n.set f v event) := h.put _ event

theorem Speaks.logWrite (h : Speaks P s n) (idx : ℤ) (entry : LogEntry) (event : Option Event) :
    Speaks P s (n.logWrite idx entry event) := h.put _ event

theorem Speaks.logRemoveLastN (h : Speaks P s n) (k : ℤ) : Speaks P s (n.logRemoveLastN k) :=
  h.put _ none

omit [Storage σ] in
theorem Speaks.setElectionTimer (h : Speaks P s n) (env : Env) :
    Speaks P s (n.setElectionTimer env) := h.mem rfl rfl

omit [Storage σ] in
theorem Speaks.setFaultDetectTimer (h : Speaks P s n) (env : Env) :
    Speaks P s (n.setFaultDetectTimer env) := h.mem rfl rfl

omit [Storage σ] in
theorem Speaks.demote (h : Speaks P s n) (leaderId : ℕ) :
    Speaks P s { n with role := .follower, leaderId := leaderId } := h.mem rfl rfl

omit [Storage σ] in
theorem Speaks.forgetVotes (h : Speaks P s n) : Speaks P s { n with
    votesReceived := 0, heartbeatTelemetry := n.heartbeatTelemetry.reset } := h.mem rfl rfl

theorem Speaks.becomeFollower (h : Speaks P s n) (env : Env) (term leaderId : ℕ) :
    Speaks P s (n.becomeFollower env term leaderId) := by
  unfold Node.becomeFollower
  dsimp only
  exact ((((h.note _).set _ _ none).demote _).set _ _ none).forgetVotes.setFaultDetectTimer env

theorem storeEntries_speaks (newIdx i : ℕ) (logLen : ℤ) (entries : List LogEntry)
    (h : Speaks P s n) : Speaks P s (storeEntries newIdx i logLen entries n) := by
  induction entries generalizing i logLen n with
  | nil => exact h
  | cons entry entries ih =>
      rw [storeEntries]
      dsimp only
      split
      · split
        · exact ih _ _ ((h.logRemoveLastN _).logWrite _ _ _)
        · exact ih _ _ h
      · exact ih _ _ (h.logWrite _ _ _)

/-- A handler is as good as its sends of replies as far as applying is concerned. -/
theorem Speaks.applyToStateMachine (h : Speaks P s n)
    (hP : ∀ dst (res : ProcRes), res.term = u32 (n.get .currentTerm) →
      P n.store ⟨dst, n.config.id, .procRes res⟩) : Speaks P s n.applyToStateMachine := by
  have hreply : ∀ {m : Node σ} (idx : ℤ) (entry : LogEntry), Speaks P s m → m.store = n.store →
      m.config = n.config → Speaks P s (m.replyOutstanding idx entry) ∧
        (m.replyOutstanding idx entry).store = n.store ∧
        (m.replyOutstanding idx entry).config = n.config := by
    intro m idx entry hm hs hc
    unfold replyOutstanding
    split
    · exact ⟨hm, hs, hc⟩
    · refine ⟨?_, hs, hc⟩
      refine Speaks.mem (Speaks.send (hm.note _) ?_) rfl rfl
      show P m.store ⟨entry.clientId, m.config.id, _⟩
      rw [hs, hc]
      refine hP _ _ ?_
      show u32 (Storage.get .currentTerm m.store) = _
      rw [hs, get_eq]
  have hnext : ∀ {m : Node σ}, Speaks P s m → m.store = n.store → m.config = n.config →
      Speaks P s m.applyNext ∧ m.applyNext.store = n.store ∧ m.applyNext.config = n.config := by
    intro m hm hs hc
    have hlast : Speaks P s { m with lastApplied := m.lastApplied + 1 } := hm.mem rfl rfl
    unfold applyNext
    dsimp only
    split
    · exact ⟨hlast, hs, hc⟩
    · split
      · exact hreply _ _ (hlast.note _) hs hc
      · exact ⟨hlast.note _, hs, hc⟩
  have hloop : ∀ fuel {m : Node σ}, Speaks P s m → m.store = n.store → m.config = n.config →
      Speaks P s (applyLoop fuel m) := by
    intro fuel
    induction fuel with
    | zero => exact fun hm _ _ => hm
    | succ fuel ih =>
        intro m hm hs hc
        unfold applyLoop
        split
        · obtain ⟨hm', hs', hc'⟩ := hnext hm hs hc
          exact ih hm' hs' hc'
        · exact hm
  exact hloop _ h rfl rfl

end Node

end GeoRaft
