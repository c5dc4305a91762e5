import Mathlib.Data.Finset.Card
import Mathlib.Data.Set.Insert
import Mathlib.Data.List.Basic
import Mathlib.Logic.Function.Basic
import Mathlib.Logic.Relation

/-!
A replicated log with elected leaders, as a transition system of its own.

Every process has a term and a log, and every term has at most one owner. A
process stands for election with the log it has, others cast ballots for it if
its log is not behind theirs, and a quorum of ballots makes it the owner of the
term; from then on `lead t` is the log of the owner of `t`, which only the owner
extends. A process of term `t` brings its own log in line with `lead t` one move
at a time, cutting it where the two disagree and copying entries one by one, and
acknowledges a prefix once it holds it.

Nothing here is a message. What a message says is a fact about this state that
never becomes false again (`Grows`), so any network that delivers, drops,
duplicates or reorders messages carrying such facts can be put on top.
-/

namespace GeoRaft.ReplicatedLog

/-- What a prefix has at a place, the whole list has there. -/
theorem getElem?_of_isPrefix {α : Type} {l l' : List α} (h : l <+: l') {k : ℕ} {x : α}
    (hk : l[k]? = some x) : l'[k]? = some x := by
  obtain ⟨s, rfl⟩ := h
  rw [List.getElem?_append_left (List.getElem?_eq_some_iff.mp hk).1, hk]

/-- The parameters: what the term of an entry is and which sets of processes
are quorums. -/
structure Scheme (ι ε : Type) where
  termOf : ε → ℕ
  Quorum : Finset ι → Prop
  meet : ∀ {P Q}, Quorum P → Quorum Q → ∃ i, i ∈ P ∧ i ∈ Q

structure State (ι ε : Type) where
  term : ι → ℕ
  log : ι → List ε
  /-- Who won the election of a term. -/
  owner : ℕ → Option ι
  /-- The log the owner of a term was elected with. -/
  elect : ℕ → List ε
  /-- The log of the owner of a term, as far as it ever got in that term. -/
  lead : ℕ → List ε
  /-- The log a process stood for election with in a term. -/
  claim : ℕ → ι → Option (List ε)
  /-- Term, voter, candidate and the voter's log when it voted. -/
  ballots : Set (ℕ × ι × ι × List ε)
  /-- Term, process and a prefix of the leading log it held in that term. -/
  acks : Set (ℕ × ι × List ε)

namespace Scheme

variable {ι ε : Type} (S : Scheme ι ε)

/-- The term of the last entry, 0 for the empty log. -/
def lastTerm (l : List ε) : ℕ := (l.getLast?.map S.termOf).getD 0

/-- The candidate's log `c` is not behind the voter's log `v`. -/
def UpToDate (v c : List ε) : Prop :=
  S.lastTerm v < S.lastTerm c ∨ S.lastTerm v = S.lastTerm c ∧ v.length ≤ c.length

def Sorted (l : List ε) : Prop := l.Pairwise fun a b => S.termOf a ≤ S.termOf b

theorem UpToDate.refl (l : List ε) : S.UpToDate l l := .inr ⟨rfl, le_rfl⟩

variable {S}

@[simp] theorem lastTerm_nil : S.lastTerm [] = 0 := rfl

@[simp] theorem lastTerm_append_singleton (l : List ε) (e : ε) :
    S.lastTerm (l ++ [e]) = S.termOf e := by
  simp [lastTerm]

theorem Sorted.of_isPrefix {l l' : List ε} (h : S.Sorted l') (hp : l <+: l') : S.Sorted l :=
  List.Pairwise.sublist hp.sublist h

theorem Sorted.append {l : List ε} {e : ε} (h : S.Sorted l)
    (he : ∀ x ∈ l, S.termOf x ≤ S.termOf e) : S.Sorted (l ++ [e]) := by
  rw [Sorted, List.pairwise_append]
  exact ⟨h, List.pairwise_singleton _ _, by simpa using he⟩

/-- In a sorted log no entry has a larger term than the last one. -/
theorem Sorted.le_lastTerm {l : List ε} (h : S.Sorted l) {e : ε} (he : e ∈ l) :
    S.termOf e ≤ S.lastTerm l := by
  rcases List.eq_nil_or_concat l with rfl | ⟨l', x, rfl⟩
  · simp at he
  · rw [List.concat_eq_append] at h he ⊢
    rw [lastTerm_append_singleton]
    rcases List.mem_append.mp he with he | he
    · exact (List.pairwise_append.mp h).2.2 e he x (by simp)
    · rw [List.mem_singleton.mp he]

end Scheme

/-! ### The moves of a process -/

variable {ι ε : Type} [DecidableEq ι] (S : Scheme ι ε)

/-- One move of the process `i`. -/
inductive Step (i : ι) : State ι ε → State ι ε → Prop
  | advance {g : State ι ε} {t : ℕ} (ht : g.term i < t) :
      Step i g { g with term := Function.update g.term i t }
  | stand {g : State ι ε} (hc : g.claim (g.term i) i = none) :
      Step i g { g with
        claim := Function.update g.claim (g.term i)
          (Function.update (g.claim (g.term i)) i (some (g.log i))) }
  | vote {g : State ι ε} {c : ι} {l : List ε} (hc : g.claim (g.term i) c = some l)
      (hu : S.UpToDate (g.log i) l) :
      Step i g { g with ballots := insert (g.term i, i, c, g.log i) g.ballots }
  | win {g : State ι ε} {Q : Finset ι} (ho : g.owner (g.term i) = none)
      (hc : g.claim (g.term i) i = some (g.log i)) (hQ : S.Quorum Q)
      (hb : ∀ j ∈ Q, ∃ l, (g.term i, j, i, l) ∈ g.ballots) :
      Step i g { g with
        owner := Function.update g.owner (g.term i) (some i)
        elect := Function.update g.elect (g.term i) (g.log i)
        lead := Function.update g.lead (g.term i) (g.log i) }
  | append {g : State ι ε} {e : ε} (ho : g.owner (g.term i) = some i)
      (he : S.termOf e = g.term i) :
      Step i g { g with
        log := Function.update g.log i (g.log i ++ [e])
        lead := Function.update g.lead (g.term i) (g.log i ++ [e]) }
  | truncate {g : State ι ε} {k : ℕ} {x y : ε} (ho : g.owner (g.term i) ≠ none)
      (hx : (g.log i)[k]? = some x) (hy : (g.lead (g.term i))[k]? = some y) (hxy : x ≠ y) :
      Step i g { g with log := Function.update g.log i ((g.log i).take k) }
  | extend {g : State ι ε} {e : ε} (ho : g.owner (g.term i) ≠ none)
      (hp : g.log i ++ [e] <+: g.lead (g.term i)) :
      Step i g { g with log := Function.update g.log i (g.log i ++ [e]) }
  | ack {g : State ι ε} {p : List ε} (ho : g.owner (g.term i) ≠ none)
      (hp : p <+: g.lead (g.term i)) (hl : p <+: g.log i) :
      Step i g { g with acks := insert (g.term i, i, p) g.acks }

/-- Any number of moves of the process `i`. -/
def Moves (i : ι) : State ι ε → State ι ε → Prop := Relation.ReflTransGen (Step S i)

/-- What only ever grows. -/
structure Grows (g g' : State ι ε) : Prop where
  term : ∀ i, g.term i ≤ g'.term i
  owner : ∀ {t i}, g.owner t = some i → g'.owner t = some i
  elect : ∀ {t}, g.owner t ≠ none → g'.elect t = g.elect t
  lead : ∀ {t}, g.owner t ≠ none → g.lead t <+: g'.lead t
  claim : ∀ {t i l}, g.claim t i = some l → g'.claim t i = some l
  ballots : g.ballots ⊆ g'.ballots
  acks : g.acks ⊆ g'.acks

omit [DecidableEq ι] in
theorem Grows.refl (g : State ι ε) : Grows g g :=
  ⟨fun _ => le_rfl, id, fun _ => rfl, fun _ => List.prefix_rfl, id, subset_rfl, subset_rfl⟩

omit [DecidableEq ι] in
theorem Grows.owner_ne {g g' : State ι ε} (h : Grows g g') {t : ℕ} (ho : g.owner t ≠ none) :
    g'.owner t ≠ none := by
  obtain ⟨i, hi⟩ := Option.ne_none_iff_exists'.mp ho
  rw [h.owner hi]
  simp

omit [DecidableEq ι] in
theorem Grows.trans {f g h : State ι ε} (hfg : Grows f g) (hgh : Grows g h) : Grows f h where
  term i := (hfg.term i).trans (hgh.term i)
  owner ho := hgh.owner (hfg.owner ho)
  elect ho := (hgh.elect (hfg.owner_ne ho)).trans (hfg.elect ho)
  lead ho := (hfg.lead ho).trans (hgh.lead (hfg.owner_ne ho))
  claim hc := hgh.claim (hfg.claim hc)
  ballots := hfg.ballots.trans hgh.ballots
  acks := hfg.acks.trans hgh.acks

end GeoRaft.ReplicatedLog
