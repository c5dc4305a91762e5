import Mathlib.Data.List.Basic
import Mathlib.Data.List.Infix
import Mathlib.Data.Nat.Find

/-!
Bringing a copy of a log up to date by offers, over a channel that loses nothing.

The source guesses up to which place the copy has its entries (`next`). An offer
names that place and carries the entries from there to another one, at most `cap`
of them. The copy takes an offer if it agrees with the source up to the place,
and answers; a refusal makes the source guess one less, and an acceptance makes it
guess that the copy has everything. Entries travel only with a new entry: a `beat`
carries none.

How far the copy can get this way depends on the number of new entries alone
(`Run.agrees`, `exists_caught_up`), and whether the guesses are right after the
first acceptance depends on what the source knows nothing about, namely what is
under way (`Tracks`).
-/

namespace GeoRaft.LogShipping

variable {ε : Type} {source copy : List ε} {m n : ℕ}

/-- The source has `n` entries, and the copy starts with the same ones. -/
def Agrees (source copy : List ε) (n : ℕ) : Prop :=
  n ≤ source.length ∧ copy.take n = source.take n

theorem agrees_zero (source copy : List ε) : Agrees source copy 0 := ⟨Nat.zero_le _, by simp⟩

theorem Agrees.mono (h : Agrees source copy n) (hle : m ≤ n) : Agrees source copy m := by
  refine ⟨hle.trans h.1, ?_⟩
  have htake := congrArg (List.take m) h.2
  rwa [List.take_take, List.take_take, min_eq_left hle] at htake

theorem Agrees.length_le (h : Agrees source copy n) : n ≤ copy.length := by
  have hlen := congrArg List.length h.2
  rw [List.length_take, List.length_take, min_eq_left h.1] at hlen
  omega

theorem Agrees.getElem?_eq (h : Agrees source copy n) {i : ℕ} (hi : i < n) :
    copy[i]? = source[i]? := by
  rw [← List.getElem?_take_of_lt hi, h.2, List.getElem?_take_of_lt hi]

theorem agrees_of_take_prefix (hn : n ≤ copy.length) (h : copy.take n <+: source) :
    Agrees source copy n := by
  have hlen : (copy.take n).length = n := by rw [List.length_take, min_eq_left hn]
  refine ⟨hlen ▸ h.length_le, ?_⟩
  rwa [List.prefix_iff_eq_take, hlen] at h

theorem agrees_length_iff : Agrees source copy source.length ↔ source <+: copy := by
  rw [Agrees, List.take_length, List.prefix_iff_eq_take]
  exact ⟨fun h => h.2.symm, fun h => ⟨le_rfl, h.symm⟩⟩

theorem agrees_append_iff (hn : n ≤ source.length) (es : List ε) :
    Agrees (source ++ es) copy n ↔ Agrees source copy n := by
  rw [Agrees, Agrees, List.take_append_of_le_length hn, List.length_append]
  exact and_congr_left fun _ => ⟨fun _ => hn, fun h => h.trans (Nat.le_add_right _ _)⟩

/-- A copy that does not have the new entry yet agrees with no more than before. -/
theorem Agrees.of_fresh {e : ε} (h : Agrees (source ++ [e]) copy n)
    (hfresh : copy[source.length]? ≠ some e) : n ≤ source.length := by
  by_contra hlt
  have hn : n = source.length + 1 := by
    have hle := h.1
    rw [List.length_append, List.length_singleton] at hle
    omega
  refine hfresh ?_
  have hget := congrArg (fun l : List ε => l[source.length]?) h.2
  simpa [hn] using hget

/-- Where the agreement of the two ends. -/
theorem exists_agrees_max (source copy : List ε) :
    ∃ n, Agrees source copy n ∧ ∀ m, Agrees source copy m → m ≤ n := by
  classical
  refine ⟨Nat.findGreatest (Agrees source copy) source.length, ?_, fun m hm => ?_⟩
  · exact Nat.findGreatest_spec (Nat.zero_le _) (agrees_zero source copy)
  · exact Nat.le_findGreatest hm.1 hm

/-- The entries from `start` to `upTo`, and whether an acceptance had reached the
source when it made the offer. -/
structure Offer where
  start : ℕ
  upTo : ℕ
  late : Bool

open Classical in
/-- The copy after an offer of the source. -/
noncomputable def takeIn (source copy : List ε) (o : Offer) : List ε :=
  if Agrees source copy o.start ∧ ¬Agrees source copy o.upTo then source.take o.upTo else copy

/-- The copy after the offers under way. -/
noncomputable def drain (source : List ε) : List ε → List Offer → List ε :=
  List.foldl (takeIn source)

/-- Every offer made late is going to be accepted. -/
def Passes (source : List ε) : List ε → List Offer → Prop
  | _, [] => True
  | copy, o :: os =>
    (o.late = true → Agrees source copy o.start) ∧ Passes source (takeIn source copy o) os

/-- The offers lie within the source. -/
def Within (source : List ε) (os : List Offer) : Prop :=
  ∀ o ∈ os, o.start ≤ o.upTo ∧ o.upTo ≤ source.length

/-! ### Offers -/

/-- What the copy has in common with the source it keeps. -/
theorem Agrees.takeIn (h : Agrees source copy n) (o : Offer) :
    Agrees source (takeIn source copy o) n := by
  unfold LogShipping.takeIn
  split
  · rename_i hcond
    have hlt : ¬o.upTo ≤ n := fun hle => hcond.2 (h.mono hle)
    refine ⟨h.1, ?_⟩
    rw [List.take_take, min_eq_left (by omega)]
  · exact h

/-- An accepted offer brings the copy to its end. -/
theorem agrees_takeIn {o : Offer} (h : Agrees source copy o.start) (hin : o.upTo ≤ source.length) :
    Agrees source (takeIn source copy o) o.upTo := by
  unfold takeIn
  split
  · exact ⟨hin, by rw [List.take_take, min_self]⟩
  · rename_i hcond
    exact not_not.mp fun hno => hcond ⟨h, hno⟩

/-- The agreement grows by no more than what the offer carries. -/
theorem Agrees.of_takeIn {o : Offer} {cap : ℕ} (h : Agrees source (LogShipping.takeIn source copy o) n)
    (hcap : o.upTo ≤ o.start + cap) : Agrees source copy (n - cap) := by
  unfold LogShipping.takeIn at h
  split at h
  · rename_i hcond
    have hlen := h.length_le
    rw [List.length_take] at hlen
    exact hcond.1.mono (by omega)
  · exact h.mono (Nat.sub_le _ _)

theorem length_takeIn_le (o : Offer) :
    (takeIn source copy o).length ≤ max source.length copy.length := by
  unfold takeIn
  split
  · rw [List.length_take]
    omega
  · exact le_max_right _ _

theorem takeIn_empty (source copy : List ε) {o : Offer} (h : o.upTo ≤ o.start) :
    takeIn source copy o = copy := by
  unfold takeIn
  rw [if_neg]
  exact fun hcond => hcond.2 (hcond.1.mono h)

theorem takeIn_append {o : Offer} (h : o.start ≤ o.upTo) (hin : o.upTo ≤ source.length) (e : ε) :
    takeIn (source ++ [e]) copy o = takeIn source copy o := by
  have hstart : Agrees (source ++ [e]) copy o.start ↔ Agrees source copy o.start :=
    agrees_append_iff (h.trans hin) [e]
  have hend : Agrees (source ++ [e]) copy o.upTo ↔ Agrees source copy o.upTo :=
    agrees_append_iff hin [e]
  unfold takeIn
  rw [List.take_append_of_le_length hin]
  by_cases hcond : Agrees source copy o.start ∧ ¬Agrees source copy o.upTo
  · rw [if_pos hcond, if_pos (by rwa [hstart, hend])]
  · rw [if_neg hcond, if_neg (by rwa [hstart, hend])]

theorem drain_append {os : List Offer} (h : Within source os) (e : ε) :
    drain (source ++ [e]) copy os = drain source copy os := by
  induction os generalizing copy with
  | nil => rfl
  | cons o os ih =>
      obtain ⟨hle, hin⟩ := h o List.mem_cons_self
      unfold drain at ih ⊢
      rw [List.foldl_cons, List.foldl_cons, takeIn_append hle hin]
      exact ih fun o' ho' => h o' (List.mem_cons_of_mem o ho')

theorem drain_snoc (source copy : List ε) (os : List Offer) (o : Offer) :
    drain source copy (os ++ [o]) = takeIn source (drain source copy os) o :=
  List.foldl_concat _ _ _ _

theorem passes_snoc {os : List Offer} {o : Offer} :
    Passes source copy (os ++ [o]) ↔ Passes source copy os ∧
      (o.late = true → Agrees source (drain source copy os) o.start) := by
  induction os generalizing copy with
  | nil => simp [Passes, drain]
  | cons o' os ih => simp [Passes, ih, drain, and_assoc]

theorem passes_append {os : List Offer} (h : Within source os) (e : ε) :
    Passes (source ++ [e]) copy os ↔ Passes source copy os := by
  induction os generalizing copy with
  | nil => rfl
  | cons o os ih =>
      obtain ⟨hle, hin⟩ := h o List.mem_cons_self
      rw [Passes, Passes, agrees_append_iff (hle.trans hin), takeIn_append hle hin,
        ih fun o' ho' => h o' (List.mem_cons_of_mem o ho')]

/-! ### Runs -/

/-- Source and copy, and what is under way between them: offers in the order in
which they were made, answers in the order in which they were given. An answer is
how far the copy says it agrees, or a refusal. -/
structure State (ε : Type) where
  source : List ε
  copy : List ε
  next : ℕ
  offers : List Offer
  answers : List (Option ℕ)
  late : Bool

inductive Op (ε : Type)
  /-- The source makes an offer without entries. -/
  | beat
  /-- The source gets a new entry and makes an offer. -/
  | append (e : ε)
  /-- The copy gets the next offer. -/
  | receive
  /-- The source gets the next answer. -/
  | learn
  /-- The copy refuses something else. -/
  | refuse

namespace State

variable {s : State ε} {cap : ℕ}

/-- The offer of a source with these entries. -/
def batch (s : State ε) (cap : ℕ) (source : List ε) : Offer :=
  ⟨s.next, min (s.next + cap) source.length, s.late⟩

open Classical in
/-- What the copy says to an offer. -/
noncomputable def answer (s : State ε) (o : Offer) : Option ℕ :=
  if Agrees s.source s.copy o.start then some o.upTo else none

noncomputable def apply (cap : ℕ) (s : State ε) : Op ε → State ε
  | .beat => { s with offers := s.offers ++ [⟨s.next, s.next, s.late⟩] }
  | .append e =>
    { s with
      source := s.source ++ [e]
      offers := s.offers ++ [s.batch cap (s.source ++ [e])] }
  | .receive =>
    match s.offers with
    | [] => s
    | o :: os =>
      { s with
        copy := takeIn s.source s.copy o
        offers := os
        answers := s.answers ++ [s.answer o] }
  | .learn =>
    match s.answers with
    | [] => s
    | some _ :: answers => { s with next := s.source.length, answers := answers, late := true }
    | none :: answers => { s with next := s.next - 1, answers := answers }
  | .refuse => { s with answers := s.answers ++ [none] }

theorem apply_receive_nil (h : s.offers = []) : s.apply cap .receive = s := by
  rw [apply, h]

theorem apply_receive_cons {o : Offer} {os : List Offer} (h : s.offers = o :: os) :
    s.apply cap .receive = { s with
      copy := takeIn s.source s.copy o
      offers := os
      answers := s.answers ++ [s.answer o] } := by
  rw [apply, h]

theorem apply_learn_nil (h : s.answers = []) : s.apply cap .learn = s := by
  rw [apply, h]

theorem apply_learn_some {c : ℕ} {a : List (Option ℕ)} (h : s.answers = some c :: a) :
    s.apply cap .learn = { s with next := s.source.length, answers := a, late := true } := by
  rw [apply, h]

theorem apply_learn_none {a : List (Option ℕ)} (h : s.answers = none :: a) :
    s.apply cap .learn = { s with next := s.next - 1, answers := a } := by
  rw [apply, h]

theorem length_source_le_apply (s : State ε) (op : Op ε) :
    s.source.length ≤ (s.apply cap op).source.length := by
  cases op with
  | beat => exact le_rfl
  | append e => simp [apply]
  | receive =>
      cases hos : s.offers with
      | nil => rw [apply_receive_nil hos]
      | cons o os => rw [apply_receive_cons hos]
  | learn =>
      cases hans : s.answers with
      | nil => rw [apply_learn_nil hans]
      | cons a answers =>
          cases a with
          | none => rw [apply_learn_none hans]
          | some c => rw [apply_learn_some hans]
  | refuse => exact le_rfl

/-- What the copy is going to be once it has got everything under way. -/
noncomputable def due (s : State ε) : List ε := drain s.source s.copy s.offers

theorem due_receive {o : Offer} {os : List Offer} (h : s.offers = o :: os) :
    (s.apply cap .receive).due = s.due := by
  rw [apply_receive_cons h, due, due, h]
  rfl

/-- The source guesses and offers no more than it has. -/
structure Sane (s : State ε) : Prop where
  next : s.next ≤ s.source.length
  offers : Within s.source s.offers

/-- The copy does not have the new entry already. -/
def Fresh (s : State ε) : Op ε → Prop
  | .append e => s.copy[s.source.length]? ≠ some e
  | _ => True

/-- If the source is about to learn of an acceptance, the copy has, or is about to
get, all it has. -/
def Covered (s : State ε) : Op ε → Prop
  | .learn => ∀ c answers, s.answers = some c :: answers → s.source <+: s.due
  | _ => True

end State

/-- The states that operations lead to, each of them allowed where it is made. -/
inductive Run (cap : ℕ) (ok : State ε → Op ε → Prop) (s : State ε) : State ε → Prop
  | start : Run cap ok s s
  | op {t : State ε} (h : Run cap ok s t) (op : Op ε) (hok : ok t op) :
      Run cap ok s (t.apply cap op)

variable {cap : ℕ} {ok : State ε → Op ε → Prop} {s t : State ε}

theorem Run.trans {u : State ε} (h : Run cap ok s t) (h' : Run cap ok t u) : Run cap ok s u := by
  induction h' with
  | start => exact h
  | op _ op hok ih => exact .op ih op hok

theorem Within.append {os : List Offer} (h : Within source os) (e : ε) :
    Within (source ++ [e]) os := fun o ho => by
  rw [List.length_append]
  exact ⟨(h o ho).1, (h o ho).2.trans (Nat.le_add_right _ _)⟩

theorem Within.snoc {os : List Offer} {o : Offer} (h : Within source os) (hle : o.start ≤ o.upTo)
    (hin : o.upTo ≤ source.length) : Within source (os ++ [o]) := by
  intro o' ho'
  rcases List.mem_append.mp ho' with ho' | ho'
  · exact h o' ho'
  · rw [List.mem_singleton.mp ho']
    exact ⟨hle, hin⟩

namespace State

theorem Sane.apply (h : s.Sane) (op : Op ε) : (s.apply cap op).Sane := by
  obtain ⟨hnext, hin⟩ := h
  cases op with
  | beat => exact ⟨hnext, hin.snoc le_rfl hnext⟩
  | append e =>
      have hlen : (s.source ++ [e]).length = s.source.length + 1 := by simp
      refine ⟨?_, (hin.append e).snoc ?_ (min_le_right _ _)⟩
      · exact hnext.trans (by rw [State.apply, hlen]; omega)
      · simp only [batch, hlen]
        omega
  | receive =>
      cases hos : s.offers with
      | nil =>
          rw [apply_receive_nil hos]
          exact ⟨hnext, hin⟩
      | cons o os =>
          rw [apply_receive_cons hos]
          exact ⟨hnext, fun o' ho' => hin o' (hos ▸ List.mem_cons_of_mem o ho')⟩
  | learn =>
      cases hans : s.answers with
      | nil =>
          rw [apply_learn_nil hans]
          exact ⟨hnext, hin⟩
      | cons a answers =>
          cases a with
          | none =>
              rw [apply_learn_none hans]
              exact ⟨(Nat.sub_le _ _).trans hnext, hin⟩
          | some c =>
              rw [apply_learn_some hans]
              exact ⟨le_rfl, hin⟩
  | refuse => exact ⟨hnext, hin⟩

end State

theorem Run.sane (h : Run cap ok s t) (hs : s.Sane) : t.Sane := by
  induction h with
  | start => exact hs
  | op _ op _ ih => exact ih.apply op

/-! ### After the first acceptance -/

/-- The offers made after the first acceptance pass, and the next one will. -/
structure State.Tracks (s : State ε) : Prop where
  passes : Passes s.source s.copy s.offers
  next : s.late = true → Agrees s.source s.due s.next

theorem State.Tracks.apply (hs : s.Sane) (h : s.Tracks) {op : Op ε} (hok : s.Covered op) :
    (s.apply cap op).Tracks := by
  obtain ⟨hnext, hin⟩ := hs
  obtain ⟨hpass, hguess⟩ := h
  cases op with
  | beat =>
      refine ⟨passes_snoc.mpr ⟨hpass, hguess⟩, fun hlate => ?_⟩
      show Agrees s.source (drain s.source s.copy (s.offers ++ [⟨s.next, s.next, s.late⟩])) s.next
      rw [drain_snoc, takeIn_empty _ _ le_rfl]
      exact hguess hlate
  | append e =>
      have hguess' : s.late = true → Agrees (s.source ++ [e]) (drain (s.source ++ [e]) s.copy s.offers)
          s.next := fun hlate => by
        rw [drain_append hin, agrees_append_iff hnext]
        exact hguess hlate
      refine ⟨passes_snoc.mpr ⟨(passes_append hin e).mpr hpass, hguess'⟩, fun hlate => ?_⟩
      show Agrees _ (drain _ s.copy (s.offers ++ [s.batch cap (s.source ++ [e])])) s.next
      rw [drain_snoc]
      exact (hguess' hlate).takeIn _
  | receive =>
      cases hos : s.offers with
      | nil =>
          rw [apply_receive_nil hos]
          exact ⟨hpass, hguess⟩
      | cons o os =>
          rw [apply_receive_cons hos]
          rw [hos, Passes] at hpass
          refine ⟨hpass.2, fun hlate => ?_⟩
          have hdue := hguess hlate
          rw [due, hos] at hdue
          exact hdue
  | learn =>
      cases hans : s.answers with
      | nil =>
          rw [apply_learn_nil hans]
          exact ⟨hpass, hguess⟩
      | cons a answers =>
          cases a with
          | none =>
              rw [apply_learn_none hans]
              exact ⟨hpass, fun hlate => (hguess hlate).mono (Nat.sub_le _ _)⟩
          | some c =>
              rw [apply_learn_some hans]
              exact ⟨hpass, fun _ => agrees_length_iff.mpr (hok c answers hans)⟩
  | refuse => exact ⟨hpass, hguess⟩

/-- If every acceptance the source learns of comes when the copy has, or is about to
get, all the source has, then no offer made after the first one is refused. -/
theorem Run.tracks (h : Run cap State.Covered s t) (hs : s.Sane) (h0 : s.Tracks) : t.Tracks := by
  induction h with
  | start => exact h0
  | op h op hok ih => exact ih.apply (h.sane hs) hok

/-! ### How far the copy gets -/

/-- The offers under way that carry something. -/
def State.loaded (s : State ε) : ℕ := s.offers.countP fun o => o.start < o.upTo

/-- Each new entry lets the agreement grow by `cap` at most, when the offer made with
it is taken. -/
structure State.Gained (cap : ℕ) (s t : State ε) : Prop where
  grown : ∃ es, t.source = s.source ++ es
  loaded : s.source.length + t.loaded ≤ t.source.length
  capped : ∀ o ∈ t.offers, o.upTo ≤ o.start + cap
  agrees : ∀ n, Agrees t.source t.copy n →
    Agrees s.source s.copy (n - cap * (t.source.length - s.source.length - t.loaded))

theorem State.loaded_snoc (os : List Offer) (o : Offer) :
    (os ++ [o]).countP (fun o => o.start < o.upTo) =
      os.countP (fun o => o.start < o.upTo) + if o.start < o.upTo then 1 else 0 := by
  simp [List.countP_append, List.countP_singleton]

theorem State.Gained.refl (cap : ℕ) (s : State ε) (h : s.offers = []) : State.Gained cap s s where
  grown := ⟨[], by simp⟩
  loaded := by simp [State.loaded, h]
  capped := by simp [h]
  agrees n hn := hn.mono (Nat.sub_le _ _)

theorem State.Gained.apply (h : State.Gained cap s t) {op : Op ε} (hok : t.Fresh op) :
    State.Gained cap s (t.apply cap op) := by
  obtain ⟨⟨es, hes⟩, hload, hcap, hagr⟩ := h
  cases op with
  | beat =>
      have hsame : (t.apply cap .beat).loaded = t.loaded := by
        simp [State.apply, State.loaded, List.countP_append]
      refine ⟨⟨es, hes⟩, hsame ▸ hload, ?_, fun n hn => hsame ▸ hagr n hn⟩
      intro o ho
      rcases List.mem_append.mp ho with ho | ho
      · exact hcap o ho
      · rw [List.mem_singleton.mp ho]
        exact Nat.le_add_right _ _
  | append e =>
      have hmore : (t.apply cap (.append e)).loaded ≤ t.loaded + 1 := by
        simp only [State.apply, State.loaded, State.loaded_snoc]
        split <;> omega
      have hlen : (t.apply cap (.append e)).source.length = t.source.length + 1 := by
        simp [State.apply]
      refine ⟨⟨es ++ [e], by simp [State.apply, hes]⟩, by omega, ?_, fun n hn => ?_⟩
      · intro o ho
        rcases List.mem_append.mp ho with ho | ho
        · exact hcap o ho
        · rw [List.mem_singleton.mp ho]
          exact min_le_left _ _
      · have hle := Agrees.of_fresh hn hok
        refine (hagr n ((agrees_append_iff hle [e]).mp hn)).mono (Nat.sub_le_sub_left ?_ n)
        exact Nat.mul_le_mul_left cap (by omega)
  | receive =>
      cases hos : t.offers with
      | nil =>
          rw [State.apply_receive_nil hos]
          exact ⟨⟨es, hes⟩, hload, hcap, hagr⟩
      | cons o os =>
          rw [State.apply_receive_cons hos]
          have hload' : t.loaded = os.countP (fun o => o.start < o.upTo) +
              if o.start < o.upTo then 1 else 0 := by
            simp [State.loaded, hos, List.countP_cons]
          refine ⟨⟨es, hes⟩, ?_, fun o' ho' => hcap o' (hos ▸ List.mem_cons_of_mem o ho'),
            fun n hn => ?_⟩
          · show s.source.length + os.countP (fun o => o.start < o.upTo) ≤ t.source.length
            split at hload' <;> omega
          · show Agrees s.source s.copy (n - cap * (t.source.length - s.source.length -
              os.countP (fun o => o.start < o.upTo)))
            split at hload'
            · -- one offer fewer is under way, and the agreement may have grown by its entries
              have hbefore := hagr _ (Agrees.of_takeIn hn (hcap o (hos ▸ List.mem_cons_self)))
              have hone : t.source.length - s.source.length - os.countP (fun o => o.start < o.upTo) =
                  t.source.length - s.source.length - t.loaded + 1 := by omega
              rwa [hone, Nat.mul_succ, Nat.add_comm, ← Nat.sub_sub]
            · rename_i hempty
              rw [takeIn_empty _ _ (not_lt.mp hempty)] at hn
              have hbefore := hagr n hn
              rwa [hload', Nat.add_zero] at hbefore
  | learn =>
      cases hans : t.answers with
      | nil =>
          rw [State.apply_learn_nil hans]
          exact ⟨⟨es, hes⟩, hload, hcap, hagr⟩
      | cons a answers =>
          cases a with
          | none =>
              rw [State.apply_learn_none hans]
              exact ⟨⟨es, hes⟩, hload, hcap, hagr⟩
          | some c =>
              rw [State.apply_learn_some hans]
              exact ⟨⟨es, hes⟩, hload, hcap, hagr⟩
  | refuse => exact ⟨⟨es, hes⟩, hload, hcap, hagr⟩

/-- With `k` new entries the agreement cannot grow by more than `cap * k`. -/
theorem Run.agrees (h : Run cap State.Fresh s t) (hs : s.offers = []) :
    ∃ es, t.source = s.source ++ es ∧ ∀ n, Agrees t.source t.copy n →
      Agrees s.source s.copy (n - cap * es.length) := by
  have hgained : State.Gained cap s t := by
    induction h with
    | start => exact .refl cap s hs
    | op _ op hok ih => exact ih.apply hok
  obtain ⟨es, hes⟩ := hgained.grown
  refine ⟨es, hes, fun n hn => (hgained.agrees n hn).mono (Nat.sub_le_sub_left ?_ n)⟩
  have hlen : t.source.length = s.source.length + es.length := by rw [hes, List.length_append]
  exact Nat.mul_le_mul_left cap (by omega)

/-! ### Catching up -/

/-- Nothing is under way. -/
structure State.Rests (s : State ε) : Prop where
  offers : s.offers = []
  answers : s.answers = []

/-- The source makes offers as it likes, with new entries from `es` only. -/
def Planned (es : List ε) (_ : State ε) : Op ε → Prop
  | .append e => e ∈ es
  | .refuse => False
  | _ => True

/-- A beat that goes there and whose answer comes back. -/
theorem exists_round_beat (cap : ℕ) (es : List ε) (hs : s.Rests) :
    ∃ t, Run cap (Planned es) s t ∧ t.Rests ∧ t.source = s.source ∧ t.copy = s.copy ∧
      (Agrees s.source s.copy s.next → t.next = s.source.length) ∧
      (¬Agrees s.source s.copy s.next → t.next = s.next - 1) := by
  obtain ⟨hoffers, hanswers⟩ := hs
  have hrun : Run cap (Planned es) s (((s.apply cap .beat).apply cap .receive).apply cap .learn) :=
    ((Run.start.op .beat trivial).op .receive trivial).op .learn trivial
  refine ⟨_, hrun, ?_⟩
  have hbeat : (s.apply cap .beat).offers = [⟨s.next, s.next, s.late⟩] := by
    simp [State.apply, hoffers]
  rw [State.apply_receive_cons hbeat]
  by_cases hyes : Agrees s.source s.copy s.next
  · rw [State.apply_learn_some (c := s.next) (a := [])
      (by simp [State.apply, State.answer, hanswers, hyes])]
    refine ⟨⟨rfl, rfl⟩, rfl, takeIn_empty _ _ le_rfl, fun _ => rfl, fun hno => absurd hyes hno⟩
  · rw [State.apply_learn_none (a := [])
      (by simp [State.apply, State.answer, hanswers, hyes])]
    exact ⟨⟨rfl, rfl⟩, rfl, takeIn_empty _ _ le_rfl, fun h => absurd h hyes, fun _ => rfl⟩

/-- Beats alone make the source guess right, but nothing else. -/
theorem exists_guess_right (cap : ℕ) (es : List ε) (hs : s.Rests) {m : ℕ} (hm : Agrees s.source s.copy m)
    (hmax : ∀ n, Agrees s.source s.copy n → n ≤ m) :
    ∃ t, Run cap (Planned es) s t ∧ t.Rests ∧ t.source = s.source ∧ t.copy = s.copy ∧ t.next = m := by
  -- a guess that is too high comes down with each beat
  have hdown : ∀ k, ∀ {u : State ε}, u.Rests → u.source = s.source → u.copy = s.copy →
      u.next = m + k → ∃ t, Run cap (Planned es) u t ∧ t.Rests ∧ t.source = s.source ∧
        t.copy = s.copy ∧ t.next = m := by
    intro k
    induction k with
    | zero => exact fun hu hsource hcopy hnext => ⟨_, .start, hu, hsource, hcopy, hnext⟩
    | succ k ih =>
        intro u hu hsource hcopy hnext
        obtain ⟨v, hrun, hv, hvs, hvc, -, hno⟩ := exists_round_beat cap es hu
        have hrefused : ¬Agrees u.source u.copy u.next := by
          rw [hsource, hcopy, hnext]
          intro hyes
          have hle := hmax _ hyes
          omega
        obtain ⟨t, hrun', ht⟩ := ih hv (hvs.trans hsource) (hvc.trans hcopy)
          (by rw [hno hrefused, hnext]; rfl)
        exact ⟨t, hrun.trans hrun', ht⟩
  rcases Nat.lt_or_ge s.next m with hlt | hge
  · -- a guess that is too low is accepted, and then it is too high
    obtain ⟨v, hrun, hv, hvs, hvc, hyes, -⟩ := exists_round_beat cap es hs
    obtain ⟨t, hrun', ht⟩ := hdown (s.source.length - m) hv hvs hvc (by
      rw [hyes (hm.mono (Nat.le_of_lt hlt))]
      exact (Nat.add_sub_cancel' hm.1).symm)
    exact ⟨t, hrun.trans hrun', ht⟩
  · exact hdown (s.next - m) hs rfl rfl (Nat.add_sub_cancel' hge).symm

/-- An offer with a new entry that is taken, and whose answer comes back. -/
theorem exists_round_append (cap : ℕ) {es : List ε} {e : ε} (he : e ∈ es) (hs : s.Rests)
    (hyes : Agrees s.source s.copy s.next) :
    ∃ t, Run cap (Planned es) s t ∧ t.Rests ∧ t.source = s.source ++ [e] ∧
      t.next = t.source.length ∧ Agrees t.source t.copy (min (s.next + cap) t.source.length) := by
  obtain ⟨hoffers, hanswers⟩ := hs
  have hrun : Run cap (Planned es) s
      (((s.apply cap (.append e)).apply cap .receive).apply cap .learn) :=
    ((Run.start.op (.append e) he).op .receive trivial).op .learn trivial
  refine ⟨_, hrun, ?_⟩
  have hstart : Agrees (s.source ++ [e]) s.copy (s.batch cap (s.source ++ [e])).start :=
    (agrees_append_iff hyes.1 [e]).mpr hyes
  have happend : (s.apply cap (.append e)).offers = [s.batch cap (s.source ++ [e])] := by
    simp [State.apply, hoffers]
  rw [State.apply_receive_cons happend,
    State.apply_learn_some (c := (s.batch cap (s.source ++ [e])).upTo) (a := [])
      (by simp [State.apply, State.answer, hanswers, hstart])]
  exact ⟨⟨rfl, rfl⟩, rfl, rfl, agrees_takeIn hstart (min_le_right _ _)⟩

/-- With `k` new entries the agreement can grow by `cap * k`. -/
theorem exists_caught_up (hcap : 0 < cap) (hs : s.Rests) {es : List ε}
    (h : Agrees s.source s.copy (s.source.length - (cap - 1) * es.length)) :
    ∃ t, Run cap (Planned es) s t ∧ t.source = s.source ++ es ∧ t.source <+: t.copy := by
  -- the plan allows all entries, and the induction is on those still to come
  suffices hmain : ∀ fs, fs ⊆ es → ∀ {u : State ε}, u.Rests →
      Agrees u.source u.copy (u.source.length - (cap - 1) * fs.length) →
      ∃ t, Run cap (Planned es) u t ∧ t.source = u.source ++ fs ∧ t.source <+: t.copy from
    hmain es (List.Subset.refl es) hs h
  intro fs
  induction fs with
  | nil =>
      intro _ u _ hu
      rw [List.length_nil, Nat.mul_zero, Nat.sub_zero] at hu
      exact ⟨u, .start, by simp, agrees_length_iff.mp hu⟩
  | cons e fs ih =>
      intro hsub u hu hagr
      obtain ⟨m, hm, hmax⟩ := exists_agrees_max u.source u.copy
      obtain ⟨v, hrun, hv, hvs, hvc, hnext⟩ := exists_guess_right cap es hu hm hmax
      obtain ⟨w, hrun', hw, hws, -, hgot⟩ := exists_round_append cap (hsub List.mem_cons_self) hv
        (by rwa [hvs, hvc, hnext])
      have hlen : w.source.length = u.source.length + 1 := by
        rw [hws, hvs, List.length_append, List.length_singleton]
      have henough : w.source.length - (cap - 1) * fs.length ≤ min (v.next + cap) w.source.length := by
        have hle := hmax _ hagr
        rw [List.length_cons, Nat.mul_succ] at hle
        rw [hnext, hlen]
        omega
      obtain ⟨t, hrun'', ht, hprefix⟩ := ih (fun x hx => hsub (List.mem_cons_of_mem e hx)) hw
        (hgot.mono henough)
      refine ⟨t, (hrun.trans hrun').trans hrun'', ?_, hprefix⟩
      rw [ht, hws, hvs, List.append_assoc, List.singleton_append]

end GeoRaft.LogShipping
