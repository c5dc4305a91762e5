import GeoRaft.Library.ReplicatedLog

/-!
Safety of the replicated log.

`Traced` is the one idea behind log matching: the part of a log up to an entry
of term `t` is a part of the log of the owner of `t`, so two logs with an entry
of the same term in the same place agree up to there. `Keeps` is the one idea
behind leader completeness: a process that acknowledged a prefix still has it,
or the owner of some later term was elected without it. `Inv` collects both and
what they need; `Inv.complete` is leader completeness, a consequence of the
invariant in a single state, by induction on the later term.
-/

namespace GeoRaft.ReplicatedLog

open Scheme

variable {ι ε : Type} (S : Scheme ι ε)

/-- Up to every entry the log is the log of the owner of the entry's term. -/
def Traced (g : State ι ε) (l : List ε) : Prop :=
  ∀ k e, l[k]? = some e → g.owner (S.termOf e) ≠ none ∧ l.take (k + 1) <+: g.lead (S.termOf e)

/-- The prefix `p`, acknowledged in term `T`, is in `l`, or some owner of a term
after `T` and before `u` was elected without it. -/
def Keeps (g : State ι ε) (T : ℕ) (p : List ε) (u : ℕ) (l : List ε) : Prop :=
  p <+: l ∨ ∃ s, T < s ∧ s < u ∧ g.owner s ≠ none ∧ ¬ p <+: g.elect s

/-- A quorum acknowledged `p` in term `T`, and `p` ends in an entry of that term. -/
def Committed (g : State ι ε) (T : ℕ) (p : List ε) : Prop :=
  g.owner T ≠ none ∧ p <+: g.lead T ∧ (∃ e, p.getLast? = some e ∧ S.termOf e = T) ∧
    ∃ Q, S.Quorum Q ∧ ∀ i ∈ Q, ∃ p', p <+: p' ∧ (T, i, p') ∈ g.acks

structure Inv (g : State ι ε) : Prop where
  log_traced : ∀ i, Traced S g (g.log i)
  lead_traced : ∀ {t}, g.owner t ≠ none → Traced S g (g.lead t)
  log_sorted : ∀ i, S.Sorted (g.log i)
  lead_sorted : ∀ {t}, g.owner t ≠ none → S.Sorted (g.lead t)
  log_le : ∀ i, ∀ e ∈ g.log i, S.termOf e ≤ g.term i
  lead_le : ∀ {t}, g.owner t ≠ none → ∀ e ∈ g.lead t, S.termOf e ≤ t
  elect_lt : ∀ {t}, g.owner t ≠ none → ∀ e ∈ g.elect t, S.termOf e < t
  elect_lead : ∀ {t}, g.owner t ≠ none → g.elect t <+: g.lead t
  owner_log : ∀ {t i}, g.owner t = some i → t ≤ g.term i ∧ (g.term i = t → g.log i = g.lead t)
  claim_le : ∀ {t i}, g.claim t i ≠ none → t ≤ g.term i
  acked : ∀ {T i p}, (T, i, p) ∈ g.acks →
    g.owner T ≠ none ∧ T ≤ g.term i ∧ p <+: g.lead T ∧
      ∀ p', p' <+: p → Keeps g T p' (g.term i + 1) (g.log i)
  voted : ∀ {t i c l}, (t, i, c, l) ∈ g.ballots →
    t ≤ g.term i ∧ (∃ cl, g.claim t c = some cl ∧ S.UpToDate l cl) ∧ Traced S g l ∧ S.Sorted l ∧
      ∀ {T p}, (T, i, p) ∈ g.acks → T < t → ∀ p', p' <+: p → Keeps g T p' (t + 1) l
  elected : ∀ {t c}, g.owner t = some c → ∃ Q, S.Quorum Q ∧ ∀ i ∈ Q, t ≤ g.term i ∧
    ∃ l, S.UpToDate l (g.elect t) ∧ Traced S g l ∧ S.Sorted l ∧
      ∀ {T p}, (T, i, p) ∈ g.acks → T < t → ∀ p', p' <+: p → Keeps g T p' t l

variable {S}

/-! ### Two logs with a common entry -/

theorem Traced.isPrefix {g : State ι ε} {l l' : List ε} (h : Traced S g l') (hp : l <+: l') :
    Traced S g l := by
  intro k e hk
  obtain ⟨s, rfl⟩ := hp
  have hlt : k < l.length := (List.getElem?_eq_some_iff.mp hk).1
  have hk' : (l ++ s)[k]? = some e := by rwa [List.getElem?_append_left hlt]
  have := h k e hk'
  rwa [List.take_append_of_le_length hlt] at this

/-- Log matching: logs that hold entries of one term at `k` agree up to `k`. -/
theorem Traced.matching {g : State ι ε} {l l' : List ε} (h : Traced S g l) (h' : Traced S g l')
    {k : ℕ} {e e' : ε} (hk : l[k]? = some e) (hk' : l'[k]? = some e')
    (ht : S.termOf e = S.termOf e') : l.take (k + 1) = l'.take (k + 1) := by
  have hp := (h k e hk).2
  have hp' := (h' k e' hk').2
  rw [ht] at hp
  have hlen : (l.take (k + 1)).length = (l'.take (k + 1)).length := by
    have h1 := (List.getElem?_eq_some_iff.mp hk).1
    have h2 := (List.getElem?_eq_some_iff.mp hk').1
    simp only [List.length_take]
    omega
  exact (List.prefix_of_prefix_length_le hp hp' hlen.le).eq_of_length hlen

/-- A whole nonempty log is traced to the owner of its last entry. -/
theorem Traced.last {g : State ι ε} {l : List ε} (h : Traced S g l) {e : ε}
    (he : l.getLast? = some e) : g.owner (S.termOf e) ≠ none ∧ l <+: g.lead (S.termOf e) := by
  rw [List.getLast?_eq_getElem?] at he
  have hlt := (List.getElem?_eq_some_iff.mp he).1
  have := h _ e he
  rwa [show l.length - 1 + 1 = l.length by omega, List.take_length] at this

/-! ### Everything above is stable -/

theorem Traced.mono {g g' : State ι ε} (hg : Grows g g') {l : List ε} (h : Traced S g l) :
    Traced S g' l := by
  intro k e hk
  obtain ⟨ho, hp⟩ := h k e hk
  exact ⟨hg.owner_ne ho, hp.trans (hg.lead ho)⟩

theorem Keeps.mono {g g' : State ι ε} (hg : Grows g g') {T u u' : ℕ} {p l : List ε} (hu : u ≤ u')
    (h : Keeps g T p u l) : Keeps g' T p u' l := by
  rcases h with h | ⟨s, hTs, hsu, ho, hne⟩
  · exact .inl h
  · exact .inr ⟨s, hTs, hsu.trans_le hu, hg.owner_ne ho, by rwa [hg.elect ho]⟩

theorem Keeps.isPrefix {g : State ι ε} {T u : ℕ} {p l l' : List ε} (hl : l <+: l')
    (h : Keeps g T p u l) : Keeps g T p u l' :=
  h.imp_left fun hp => hp.trans hl

theorem Committed.mono {g g' : State ι ε} (hg : Grows g g') {T : ℕ} {p : List ε}
    (h : Committed S g T p) : Committed S g' T p := by
  obtain ⟨ho, hp, hlast, Q, hQ, hacks⟩ := h
  refine ⟨hg.owner_ne ho, hp.trans (hg.lead ho), hlast, Q, hQ, fun i hi => ?_⟩
  obtain ⟨p', hpp, hmem⟩ := hacks i hi
  exact ⟨p', hpp, hg.acks hmem⟩

/-! ### Leader completeness -/

/-- A log that is not behind one that ends after the committed prefix holds the
prefix too, given that all owners in between do. This is the two-case argument
on the last entry: of the committing term, or of a later one. -/
theorem Inv.carry {g : State ι ε} (h : Inv S g) {T t : ℕ} {p v c : List ε} {e : ε}
    (hp : p <+: g.lead T) (hoT : g.owner T ≠ none) (hlast : p.getLast? = some e)
    (heT : S.termOf e = T) (hpv : p <+: v) (hv : S.Sorted v) (hc : Traced S g c)
    (hct : ∀ x ∈ c, S.termOf x < t) (hu : S.UpToDate v c)
    (hbetween : ∀ s, T < s → s < t → g.owner s ≠ none → p <+: g.elect s) : p <+: c := by
  have hep : e ∈ p := List.mem_of_getLast? hlast
  have hTv : T ≤ S.lastTerm v := heT ▸ hv.le_lastTerm (hpv.subset hep)
  have hppos : 0 < p.length := List.length_pos_of_mem hep
  rcases List.eq_nil_or_concat c with rfl | ⟨c', x, rfl⟩
  · rcases hu with hu | ⟨-, hu⟩
    · simp at hu
    · have := hpv.length_le
      simp at hu
      simp [hu] at this
      simp [this] at hppos
  rw [List.concat_eq_append] at hc hct hu ⊢
  obtain ⟨hox, hcx⟩ := hc.last (e := x) (by simp)
  rw [Scheme.UpToDate, lastTerm_append_singleton] at hu
  rcases eq_or_lt_of_le (show T ≤ S.termOf x by rcases hu with hu | hu <;> omega) with hT | hT
  · -- the last entry is of the committing term: both are prefixes of one log
    have hlen : v.length ≤ (c' ++ [x]).length := by
      rcases hu with hu | hu
      · omega
      · exact hu.2
    rw [← hT] at hcx
    exact List.prefix_of_prefix_length_le hp hcx (hpv.length_le.trans hlen)
  · -- it is of a later term, whose owner holds the prefix
    have hpx : p <+: g.lead (S.termOf x) :=
      (hbetween _ hT (hct x (by simp)) hox).trans (h.elect_lead hox)
    rcases le_total p.length (c' ++ [x]).length with hle | hle
    · exact List.prefix_of_prefix_length_le hpx hcx hle
    · have hcp := List.prefix_of_prefix_length_le hcx hpx hle
      have := h.lead_le hoT x (hp.subset (hcp.subset (by simp)))
      omega

/-- Leader completeness: the owner of a later term was elected with every
committed prefix. -/
theorem Inv.complete {g : State ι ε} (h : Inv S g) {T t : ℕ} {p : List ε}
    (hc : Committed S g T p) (ht : T < t) (ho : g.owner t ≠ none) : p <+: g.elect t := by
  induction t using Nat.strong_induction_on with
  | _ t ih =>
    obtain ⟨hoT, hp, ⟨e, hlast, heT⟩, Q, hQ, hacks⟩ := hc
    obtain ⟨c, hoc⟩ := Option.ne_none_iff_exists'.mp ho
    obtain ⟨Q', hQ', hvotes⟩ := h.elected hoc
    obtain ⟨i, hi, hi'⟩ := S.meet hQ hQ'
    obtain ⟨p', hpp, hack⟩ := hacks i hi
    obtain ⟨-, v, hu, -, hv, hkeep⟩ := hvotes i hi'
    have hbetween : ∀ s, T < s → s < t → g.owner s ≠ none → p <+: g.elect s :=
      fun s hTs hst hos => ih s hst hTs hos
    rcases hkeep hack ht p hpp with hpv | ⟨s, hTs, hst, hos, hne⟩
    · have htr : Traced S g (g.elect t) := (h.lead_traced ho).isPrefix (h.elect_lead ho)
      exact h.carry hp hoT hlast heT hpv hv htr (h.elect_lt ho) hu hbetween
    · exact absurd (hbetween s hTs hst hos) hne

/-- What is committed is in the log of every owner from then on. -/
theorem Inv.lead_of_committed {g : State ι ε} (h : Inv S g) {T t : ℕ} {p : List ε}
    (hc : Committed S g T p) (ht : T ≤ t) (ho : g.owner t ≠ none) : p <+: g.lead t := by
  rcases eq_or_lt_of_le ht with rfl | ht
  · exact hc.2.1
  · exact (h.complete hc ht ho).trans (h.elect_lead ho)

/-- Committed prefixes are prefixes of each other. -/
theorem Inv.committed_agree {g : State ι ε} (h : Inv S g) {T T' : ℕ} {p p' : List ε}
    (hc : Committed S g T p) (hc' : Committed S g T' p') {k : ℕ} {e e' : ε}
    (hk : p[k]? = some e) (hk' : p'[k]? = some e') : e = e' := by
  have key : ∀ {T T' p p' e e'}, Committed S g T p → Committed S g T' p' → T ≤ T' →
      p[k]? = some e → p'[k]? = some e' → e = e' := by
    intro T T' p p' e e' hc hc' hle hk hk'
    obtain ⟨s, hs⟩ := h.lead_of_committed hc hle hc'.1
    obtain ⟨s', hs'⟩ := hc'.2.1
    have h1 : (g.lead T')[k]? = some e := by
      rw [← hs, List.getElem?_append_left (List.getElem?_eq_some_iff.mp hk).1, hk]
    have h2 : (g.lead T')[k]? = some e' := by
      rw [← hs', List.getElem?_append_left (List.getElem?_eq_some_iff.mp hk').1, hk']
    exact Option.some.inj (h1.symm.trans h2)
  rcases le_total T T' with hle | hle
  · exact key hc hc' hle hk hk'
  · exact (key hc' hc hle hk' hk).symm

end GeoRaft.ReplicatedLog
