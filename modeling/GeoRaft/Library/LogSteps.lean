import GeoRaft.Library.LogSafety

/-!
The safety invariant of the replicated log is kept by every move, and what the
other processes do leaves a process its own.
-/

namespace GeoRaft.ReplicatedLog

open Scheme Function

variable {ι ε : Type} [DecidableEq ι] {S : Scheme ι ε}

theorem Step.grows {g g' : State ι ε} {i : ι} (h : Inv S g) (hs : Step S i g g') :
    Grows g g' := by
  cases hs with
  | advance ht =>
      refine { Grows.refl g with term := fun j => ?_ }
      by_cases hj : j = i
      · subst hj
        simpa using ht.le
      · simp [hj]
  | stand hc =>
      refine { Grows.refl g with claim := fun {t j l} hl => ?_ }
      by_cases ht : t = g.term i
      · subst ht
        by_cases hj : j = i
        · rw [hj, hc] at hl
          cases hl
        · simpa [hj] using hl
      · simpa [ht] using hl
  | vote => exact { Grows.refl g with ballots := Set.subset_insert _ _ }
  | win ho =>
      have hne : ∀ {t}, g.owner t ≠ none → t ≠ g.term i := fun ht h => ht (h ▸ ho)
      refine { Grows.refl g with
        owner := fun {t j} hj => ?_
        elect := fun ht => ?_
        lead := fun ht => ?_ }
      · have ht : g.owner t ≠ none := by simp [hj]
        simpa [hne ht] using hj
      · simp [hne ht]
      · simp [hne ht]
  | append ho he =>
      refine { Grows.refl g with lead := fun {t} ht => ?_ }
      by_cases heq : t = g.term i
      · subst heq
        simp [(h.owner_log ho).2 rfl]
      · simp [heq]
  | truncate => exact { Grows.refl g with }
  | extend => exact { Grows.refl g with }
  | ack => exact { Grows.refl g with acks := Set.subset_insert _ _ }

/-! ### The invariant, one move at a time -/

theorem Inv.advance {g : State ι ε} (h : Inv S g) {i : ι} {t : ℕ} (ht : g.term i < t) :
    Inv S { g with term := update g.term i t } := by
  have hle : ∀ j, g.term j ≤ update g.term i t j := (Step.grows h (Step.advance ht)).term
  refine { h with
    log_le := fun j e he => (h.log_le j e he).trans (hle j)
    owner_log := fun {s j} ho => ⟨(h.owner_log ho).1.trans (hle j), fun hs => ?_⟩
    claim_le := fun hc => (h.claim_le hc).trans (hle _)
    acked := fun {T j p} hack => ?_
    voted := fun hb => ?_
    elected := fun ho => ?_ }
  · obtain ⟨hsj, hlog⟩ := h.owner_log ho
    by_cases hj : j = i
    · subst hj
      simp only [update_self] at hs
      omega
    · exact hlog (by simpa [hj] using hs)
  · obtain ⟨ho, hT, hp, hk⟩ := h.acked hack
    exact ⟨ho, hT.trans (hle j), hp, fun p' hp' =>
      (hk p' hp').mono (Grows.refl g) (Nat.succ_le_succ (hle j))⟩
  · obtain ⟨hs, hrest⟩ := h.voted hb
    exact ⟨hs.trans (hle _), hrest⟩
  · obtain ⟨Q, hQ, hvotes⟩ := h.elected ho
    exact ⟨Q, hQ, fun j hj => ⟨(hvotes j hj).1.trans (hle j), (hvotes j hj).2⟩⟩

theorem Inv.stand {g : State ι ε} (h : Inv S g) {i : ι} (hc : g.claim (g.term i) i = none) :
    Inv S { g with
      claim := update g.claim (g.term i) (update (g.claim (g.term i)) i (some (g.log i))) } := by
  have hg := Step.grows h (Step.stand hc)
  refine { h with claim_le := fun {t j} hj => ?_, voted := fun hb => ?_ }
  · by_cases ht : t = g.term i
    · subst ht
      by_cases hji : j = i
      · exact (congrArg g.term hji).ge
      · exact h.claim_le (by simpa [hji] using hj)
    · exact h.claim_le (by simpa [ht] using hj)
  · obtain ⟨ht, ⟨cl, hcl, hu⟩, hrest⟩ := h.voted hb
    exact ⟨ht, ⟨cl, hg.claim hcl, hu⟩, hrest⟩

omit [DecidableEq ι] in
theorem Inv.vote {g : State ι ε} (h : Inv S g) {i c : ι} {l : List ε}
    (hc : g.claim (g.term i) c = some l) (hu : S.UpToDate (g.log i) l) :
    Inv S { g with ballots := insert (g.term i, i, c, g.log i) g.ballots } := by
  refine { h with voted := fun {t j c' l'} hb => ?_ }
  rcases hb with hb | hb
  · obtain ⟨rfl, rfl, rfl, rfl⟩ := hb
    exact ⟨le_rfl, ⟨l, hc, hu⟩, h.log_traced _, h.log_sorted _,
      fun hack _ => (h.acked hack).2.2.2⟩
  · exact h.voted hb

theorem Inv.win {g : State ι ε} (h : Inv S g) {i : ι} {Q : Finset ι}
    (ho : g.owner (g.term i) = none) (hc : g.claim (g.term i) i = some (g.log i))
    (hQ : S.Quorum Q) (hb : ∀ j ∈ Q, ∃ l, (g.term i, j, i, l) ∈ g.ballots) :
    Inv S { g with
      owner := update g.owner (g.term i) (some i)
      elect := update g.elect (g.term i) (g.log i)
      lead := update g.lead (g.term i) (g.log i) } := by
  have hg := Step.grows h (Step.win ho hc hQ hb)
  have hne : ∀ {t}, g.owner t ≠ none → t ≠ g.term i := fun ht heq => ht (heq ▸ ho)
  have hsplit : ∀ {t}, update g.owner (g.term i) (some i) t ≠ none →
      t = g.term i ∨ g.owner t ≠ none ∧ t ≠ g.term i := by
    intro t ht
    by_cases heq : t = g.term i
    · exact .inl heq
    · exact .inr ⟨by simpa [heq] using ht, heq⟩
  refine { h with
    log_traced := fun j => (h.log_traced j).mono hg
    lead_traced := fun ht => ?_
    lead_sorted := fun ht => ?_
    lead_le := fun ht => ?_
    elect_lt := fun ht => ?_
    elect_lead := fun ht => ?_
    owner_log := fun {t j} hj => ?_
    acked := fun hack => ?_
    voted := fun hv => ?_
    elected := fun {t c} hj => ?_ }
  · rcases hsplit ht with rfl | ⟨ht, heq⟩
    · simpa using (h.log_traced i).mono hg
    · simpa [heq] using (h.lead_traced ht).mono hg
  · rcases hsplit ht with rfl | ⟨ht, heq⟩
    · simpa using h.log_sorted i
    · simpa [heq] using h.lead_sorted ht
  · rcases hsplit ht with rfl | ⟨ht, heq⟩
    · simpa using h.log_le i
    · simpa [heq] using h.lead_le ht
  · rcases hsplit ht with rfl | ⟨ht, heq⟩
    · intro e he
      simp only [update_self] at he
      -- an entry of the term itself would need an owner of the term
      obtain ⟨k, hk, rfl⟩ := List.mem_iff_getElem.mp he
      exact lt_of_le_of_ne (h.log_le i _ he)
        (hne (h.log_traced i k _ (List.getElem?_eq_getElem hk)).1)
    · simpa [heq] using h.elect_lt ht
  · rcases hsplit ht with rfl | ⟨ht, heq⟩
    · simp
    · simpa [heq] using h.elect_lead ht
  · by_cases heq : t = g.term i
    · subst heq
      obtain rfl : i = j := by simpa using hj
      exact ⟨le_rfl, fun _ => by simp⟩
    · simpa [heq] using h.owner_log (t := t) (i := j) (by simpa [heq] using hj)
  · obtain ⟨hoT, hT, hp, hk⟩ := h.acked hack
    exact ⟨hg.owner_ne hoT, hT, hp.trans (hg.lead hoT), fun p' hp' => (hk p' hp').mono hg le_rfl⟩
  · obtain ⟨ht, hcl, htr, hsort, hk⟩ := h.voted hv
    exact ⟨ht, hcl, htr.mono hg, hsort, fun hack hT p' hp' => (hk hack hT p' hp').mono hg le_rfl⟩
  · by_cases heq : t = g.term i
    · subst heq
      obtain rfl : i = c := by simpa using hj
      refine ⟨Q, hQ, fun j hjQ => ?_⟩
      obtain ⟨l, hl⟩ := hb j hjQ
      obtain ⟨ht, ⟨cl, hcl, hu⟩, htr, hsort, hk⟩ := h.voted hl
      obtain rfl : g.log i = cl := Option.some.inj (hc.symm.trans hcl)
      refine ⟨ht, l, by simpa using hu, htr.mono hg, hsort, fun hack hT p' hp' => ?_⟩
      -- a witness of disagreement among the owners is of an earlier term: this one had no owner
      rcases hk hack hT p' hp' with hpl | ⟨s, hTs, hs, hos, hns⟩
      · exact .inl hpl
      · have hst := hne hos
        exact (Keeps.mono hg le_rfl (.inr ⟨s, hTs, by omega, hos, hns⟩))
    · obtain ⟨Q', hQ', hvotes⟩ := h.elected (t := t) (c := c) (by simpa [heq] using hj)
      refine ⟨Q', hQ', fun j hjQ => ?_⟩
      obtain ⟨ht, l, hu, htr, hsort, hk⟩ := hvotes j hjQ
      exact ⟨ht, l, by simpa [heq] using hu, htr.mono hg, hsort,
        fun hack hT p' hp' => (hk hack hT p' hp').mono hg le_rfl⟩

theorem Inv.append {g : State ι ε} (h : Inv S g) {i : ι} {e : ε}
    (ho : g.owner (g.term i) = some i) (he : S.termOf e = g.term i) :
    Inv S { g with
      log := update g.log i (g.log i ++ [e])
      lead := update g.lead (g.term i) (g.log i ++ [e]) } := by
  have hg := Step.grows h (Step.append ho he)
  have hlast : ∀ x ∈ g.log i ++ [e], S.termOf x ≤ g.term i := by
    intro x hx
    rcases List.mem_append.mp hx with hx | hx
    · exact h.log_le i x hx
    · rw [List.mem_singleton.mp hx, he]
  have hsort : S.Sorted (g.log i ++ [e]) :=
    (h.log_sorted i).append fun x hx => he ▸ h.log_le i x hx
  have htr : Traced S { g with
      log := update g.log i (g.log i ++ [e])
      lead := update g.lead (g.term i) (g.log i ++ [e]) } (g.log i ++ [e]) := by
    intro k x hk
    rcases lt_or_ge k (g.log i).length with hlt | hge
    · rw [List.getElem?_append_left hlt] at hk
      rw [List.take_append_of_le_length hlt]
      exact (h.log_traced i).mono hg k x hk
    · rw [List.getElem?_append_right hge, List.getElem?_singleton] at hk
      split at hk
      · obtain rfl := Option.some.inj hk
        refine ⟨by simp [he, ho], ?_⟩
        simp only [he, update_self]
        exact List.take_prefix _ _
      · cases hk
  refine { h with
    log_traced := fun j => ?_
    lead_traced := fun {t} ht => ?_
    log_sorted := fun j => ?_
    lead_sorted := fun {t} ht => ?_
    log_le := fun j => ?_
    lead_le := fun {t} ht => ?_
    elect_lead := fun ht => (h.elect_lead ht).trans (hg.lead ht)
    owner_log := fun {t j} hj => ?_
    acked := fun {T j p} hack => ?_
    voted := fun hv => ?_
    elected := fun hj => ?_ }
  · by_cases hj : j = i
    · simpa [hj] using htr
    · simpa [hj] using (h.log_traced j).mono hg
  · by_cases heq : t = g.term i
    · simpa [heq] using htr
    · simpa [heq] using (h.lead_traced ht).mono hg
  · by_cases hj : j = i
    · simpa [hj] using hsort
    · simpa [hj] using h.log_sorted j
  · by_cases heq : t = g.term i
    · simpa [heq] using hsort
    · simpa [heq] using h.lead_sorted ht
  · by_cases hj : j = i
    · subst hj
      simpa using hlast
    · simpa [hj] using h.log_le j
  · by_cases heq : t = g.term i
    · subst heq
      simpa using hlast
    · simpa [heq] using h.lead_le ht
  · obtain ⟨ht, hlog⟩ := h.owner_log hj
    refine ⟨ht, fun htj => ?_⟩
    by_cases hji : j = i
    · subst hji
      simp [show t = g.term j from htj.symm]
    · have hti : t ≠ g.term i := fun heq => hji (Option.some.inj ((heq ▸ hj).symm.trans ho))
      simpa [hji, hti] using hlog htj
  · obtain ⟨hoT, hT, hp, hk⟩ := h.acked hack
    refine ⟨hoT, hT, hp.trans (hg.lead hoT), fun p' hp' => ?_⟩
    have hkeep := (hk p' hp').mono hg le_rfl
    by_cases hj : j = i
    · subst hj
      simpa using hkeep.isPrefix (List.prefix_append _ _)
    · simpa [hj] using hkeep
  · obtain ⟨ht, hcl, htr', hsort', hk⟩ := h.voted hv
    exact ⟨ht, hcl, htr'.mono hg, hsort', fun hack hT p' hp' => (hk hack hT p' hp').mono hg le_rfl⟩
  · obtain ⟨Q, hQ, hvotes⟩ := h.elected hj
    refine ⟨Q, hQ, fun j hjQ => ?_⟩
    obtain ⟨ht, l, hu, htr', hsort', hk⟩ := hvotes j hjQ
    exact ⟨ht, l, hu, htr'.mono hg, hsort', fun hack hT p' hp' => (hk hack hT p' hp').mono hg le_rfl⟩

/-- Replacing the log of one process, for `truncate` and `extend`: the new log
keeps what the process acknowledged, and an owner is not touched. -/
theorem Inv.setLog {g : State ι ε} (h : Inv S g) {i : ι} {l : List ε} (htr : Traced S g l)
    (hsort : S.Sorted l) (hle : ∀ e ∈ l, S.termOf e ≤ g.term i)
    (hown : g.owner (g.term i) ≠ some i)
    (hkeep : ∀ {T p}, (T, i, p) ∈ g.acks → ∀ p', p' <+: p → Keeps g T p' (g.term i + 1) l) :
    Inv S { g with log := update g.log i l } := by
  refine { h with
    log_traced := fun j => ?_
    log_sorted := fun j => ?_
    log_le := fun j => ?_
    owner_log := fun {t j} hj => ⟨(h.owner_log hj).1, fun htj => ?_⟩
    acked := fun {T j p} hack => ?_ }
  · show Traced S g (update g.log i l j)
    by_cases hj : j = i
    · simpa [hj] using htr
    · simpa [hj] using h.log_traced j
  · by_cases hj : j = i
    · simpa [hj] using hsort
    · simpa [hj] using h.log_sorted j
  · by_cases hj : j = i
    · subst hj
      simpa using hle
    · simpa [hj] using h.log_le j
  · have hji : j ≠ i := by
      rintro rfl
      exact hown (by rw [show g.term j = t from htj, hj])
    simpa [hji] using (h.owner_log hj).2 htj
  · obtain ⟨hoT, hT, hp, hk⟩ := h.acked hack
    refine ⟨hoT, hT, hp, fun p' hp' => ?_⟩
    show Keeps g T p' (g.term j + 1) (update g.log i l j)
    by_cases hj : j = i
    · subst hj
      simpa using hkeep hack p' hp'
    · simpa [hj] using hk p' hp'

theorem Inv.truncate {g : State ι ε} (h : Inv S g) {i : ι} {k : ℕ} {x y : ε}
    (ho : g.owner (g.term i) ≠ none) (hx : (g.log i)[k]? = some x)
    (hy : (g.lead (g.term i))[k]? = some y) (hxy : x ≠ y) :
    Inv S { g with log := update g.log i ((g.log i).take k) } := by
  have hpre : (g.log i).take k <+: g.log i := List.take_prefix _ _
  refine h.setLog ((h.log_traced i).isPrefix hpre) ((h.log_sorted i).of_isPrefix hpre)
    (fun e he => h.log_le i e (hpre.subset he)) (fun hoi => ?_) fun {T p} hack p' hp' => ?_
  · rw [(h.owner_log hoi).2 rfl, hy] at hx
    exact hxy (Option.some.inj hx).symm
  obtain ⟨hoT, hT, hp, hk⟩ := h.acked hack
  rcases hk p' hp' with hpl | hw
  · rcases le_or_gt p'.length k with hle | hgt
    · exact .inl (List.prefix_of_prefix_length_le hpl hpre (by
        have := hpl.length_le
        simp only [List.length_take]
        omega))
    · -- the cut is inside `p'`: the owner of the present term was elected without it
      have hpx : p'[k]? = some x := by
        obtain ⟨s, hs⟩ := hpl
        rw [← hs, List.getElem?_append_left hgt] at hx
        exact hx
      have hnot : ¬ p' <+: g.lead (g.term i) := by
        rintro ⟨s, hs⟩
        rw [← hs, List.getElem?_append_left hgt, hpx] at hy
        exact hxy (Option.some.inj hy)
      have hTne : T ≠ g.term i := fun heq => hnot (heq ▸ hp'.trans hp)
      exact .inr ⟨g.term i, by omega, by omega, ho, fun hpe => hnot (hpe.trans (h.elect_lead ho))⟩
  · exact .inr hw

theorem Inv.extend {g : State ι ε} (h : Inv S g) {i : ι} {e : ε}
    (ho : g.owner (g.term i) ≠ none) (hp : g.log i ++ [e] <+: g.lead (g.term i)) :
    Inv S { g with log := update g.log i (g.log i ++ [e]) } := by
  refine h.setLog ((h.lead_traced ho).isPrefix hp) ((h.lead_sorted ho).of_isPrefix hp)
    (fun x hx => h.lead_le ho x (hp.subset hx)) (fun hoi => ?_)
    fun hack p' hp' => ((h.acked hack).2.2.2 p' hp').isPrefix (List.prefix_append _ _)
  have := hp.length_le
  rw [(h.owner_log hoi).2 rfl, List.length_append, List.length_singleton] at this
  omega

omit [DecidableEq ι] in
theorem Inv.ack {g : State ι ε} (h : Inv S g) {i : ι} {p : List ε}
    (ho : g.owner (g.term i) ≠ none) (hp : p <+: g.lead (g.term i)) (hl : p <+: g.log i) :
    Inv S { g with acks := insert (g.term i, i, p) g.acks } := by
  refine { h with acked := fun hack => ?_, voted := fun hv => ?_, elected := fun hj => ?_ }
  · rcases hack with hack | hack
    · obtain ⟨rfl, rfl, rfl⟩ := hack
      exact ⟨ho, le_rfl, hp, fun p' hp' => .inl (hp'.trans hl)⟩
    · exact h.acked hack
  · obtain ⟨ht, hcl, htr, hsort, hk⟩ := h.voted hv
    refine ⟨ht, hcl, htr, hsort, fun hack hT => ?_⟩
    -- nobody acknowledges in a term earlier than one it voted in
    rcases hack with hack | hack
    · obtain ⟨rfl, rfl, rfl⟩ := hack
      omega
    · exact hk hack hT
  · obtain ⟨Q, hQ, hvotes⟩ := h.elected hj
    refine ⟨Q, hQ, fun j hjQ => ?_⟩
    obtain ⟨ht, l, hu, htr, hsort, hk⟩ := hvotes j hjQ
    refine ⟨ht, l, hu, htr, hsort, fun hack hT => ?_⟩
    rcases hack with hack | hack
    · obtain ⟨rfl, rfl, rfl⟩ := hack
      omega
    · exact hk hack hT

theorem Inv.step {g g' : State ι ε} {i : ι} (h : Inv S g) (hs : Step S i g g') : Inv S g' := by
  cases hs with
  | advance ht => exact h.advance ht
  | stand hc => exact h.stand hc
  | vote hc hu => exact h.vote hc hu
  | win ho hc hQ hb => exact h.win ho hc hQ hb
  | append ho he => exact h.append ho he
  | truncate ho hx hy hxy => exact h.truncate ho hx hy hxy
  | extend ho hp => exact h.extend ho hp
  | ack ho hp hl => exact h.ack ho hp hl

/-! ### What others leave alone -/

/-- What a process can rely on while others move. -/
structure Leaves (i : ι) (g g' : State ι ε) : Prop extends Grows g g' where
  term_eq : g'.term i = g.term i
  log_eq : g'.log i = g.log i
  claim_eq : ∀ t, g'.claim t i = g.claim t i
  owner_of : ∀ {t}, g'.owner t = some i → g.owner t = some i
  lead_own : ∀ {t}, g.owner t = some i → g'.lead t = g.lead t

omit [DecidableEq ι] in
theorem Leaves.refl (i : ι) (g : State ι ε) : Leaves i g g :=
  { Grows.refl g with
    term_eq := rfl, log_eq := rfl, claim_eq := fun _ => rfl, owner_of := id, lead_own := fun _ => rfl }

omit [DecidableEq ι] in
theorem Leaves.trans {i : ι} {f g k : State ι ε} (hfg : Leaves i f g) (hgk : Leaves i g k) :
    Leaves i f k :=
  { hfg.toGrows.trans hgk.toGrows with
    term_eq := hgk.term_eq.trans hfg.term_eq
    log_eq := hgk.log_eq.trans hfg.log_eq
    claim_eq := fun t => (hgk.claim_eq t).trans (hfg.claim_eq t)
    owner_of := fun h => hfg.owner_of (hgk.owner_of h)
    lead_own := fun h => (hgk.lead_own (hfg.owner h)).trans (hfg.lead_own h) }

theorem Step.leaves {g g' : State ι ε} {i j : ι} (h : Inv S g) (hs : Step S j g g')
    (hij : i ≠ j) : Leaves i g g' := by
  have hg := hs.grows h
  cases hs with
  | advance => exact { Leaves.refl i g with toGrows := hg, term_eq := by simp [hij] }
  | stand =>
      refine { Leaves.refl i g with toGrows := hg, claim_eq := fun t => ?_ }
      by_cases ht : t = g.term j
      · subst ht
        simp [hij]
      · simp [ht]
  | vote => exact { Leaves.refl i g with toGrows := hg }
  | win ho =>
      refine { Leaves.refl i g with
        toGrows := hg
        owner_of := fun {t} ht => ?_
        lead_own := fun {t} ht => ?_ }
      · by_cases heq : t = g.term j
        · subst heq
          simp [hij.symm] at ht
        · simpa [heq] using ht
      · have heq : t ≠ g.term j := by
          rintro rfl
          rw [ho] at ht
          cases ht
        simp [heq]
  | append ho =>
      refine { Leaves.refl i g with
        toGrows := hg
        log_eq := by simp [hij]
        lead_own := fun {t} ht => ?_ }
      have heq : t ≠ g.term j := by
        rintro rfl
        exact hij (Option.some.inj (ht.symm.trans ho))
      simp [heq]
  | truncate => exact { Leaves.refl i g with toGrows := hg, log_eq := by simp [hij] }
  | extend => exact { Leaves.refl i g with toGrows := hg, log_eq := by simp [hij] }
  | ack => exact { Leaves.refl i g with toGrows := hg }

/-! ### Several moves of one process -/

theorem Moves.inv {g g' : State ι ε} {i : ι} (hm : Moves S i g g') (h : Inv S g) : Inv S g' := by
  induction hm with
  | refl => exact h
  | tail _ hs ih => exact ih.step hs

theorem Moves.grows {g g' : State ι ε} {i : ι} (hm : Moves S i g g') (h : Inv S g) :
    Grows g g' := by
  induction hm with
  | refl => exact Grows.refl g
  | tail hm hs ih => exact ih.trans (hs.grows (Moves.inv hm h))

theorem Moves.leaves {g g' : State ι ε} {i j : ι} (hm : Moves S j g g') (h : Inv S g)
    (hij : i ≠ j) : Leaves i g g' := by
  induction hm with
  | refl => exact Leaves.refl i g
  | tail hm hs ih => exact ih.trans (hs.leaves (Moves.inv hm h) hij)

end GeoRaft.ReplicatedLog
