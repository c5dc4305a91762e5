import Mathlib.Logic.Basic
import Mathlib.Data.List.Basic

/-!
Scripts of effects under interference.

A process computes what it is going to do in one go and leaves a *script*: the
list of effects on the shared world still to be carried out, one at a time.
Between two of them the other processes move, and the process may be stopped
for good. What has to be shown of a script is therefore not a property of the
state it ends in but a property of every world it passes through, whatever the
others do in between.

`Setting` says what the others may do (`rely`), which worlds are acceptable
(`good`) and what carrying out one effect has to achieve (`act`). The
predicate transformer `wp s Q` then says that the script `s` can be carried
out from a world, every effect doing what it should, and that `Q` holds when it
is over. The rules below are the whole calculus: a script is built by appending
effects at its end, so the rule that matters is `wp_snoc`.
-/

namespace GeoRaft.Script

/-- What surrounds one process: the moves of the others and the meaning of its
own effects. -/
structure Setting (W E : Type) where
  good : W → Prop
  rely : W → W → Prop
  act : E → W → (W → Prop) → Prop
  rely_refl : ∀ {w}, good w → rely w w
  rely_trans : ∀ {u v w}, rely u v → rely v w → rely u w
  rely_good : ∀ {v w}, rely v w → good w
  act_mono : ∀ {e w} {P Q : W → Prop}, (∀ v, P v → Q v) → act e w P → act e w Q

variable {W E : Type} (S : Setting W E)

/-- `wp s Q w`: from `w` the script `s` can be carried out under interference,
and `Q` holds at its end. -/
def wp : List E → (W → Prop) → W → Prop
  | [], Q, w => Q w
  | e :: s, Q, w => ∀ v, S.rely w v → S.act e v (wp s Q)

/-- `P` is not destroyed by the other processes. -/
def Stable (P : W → Prop) : Prop := ∀ ⦃v w⦄, S.rely v w → P v → P w

variable {S}

@[simp] theorem wp_nil {Q : W → Prop} {w : W} : wp S [] Q w ↔ Q w := Iff.rfl

@[simp] theorem wp_cons {e : E} {s : List E} {Q : W → Prop} {w : W} :
    wp S (e :: s) Q w ↔ ∀ v, S.rely w v → S.act e v (wp S s Q) := Iff.rfl

theorem wp_mono {s : List E} {P Q : W → Prop} (h : ∀ v, P v → Q v) {w : W} :
    wp S s P w → wp S s Q w := by
  induction s generalizing w with
  | nil => exact h w
  | cons e s ih => exact fun hw v hv => S.act_mono (fun _ => ih) (hw v hv)

theorem wp_append {s t : List E} {Q : W → Prop} {w : W} :
    wp S (s ++ t) Q w ↔ wp S s (wp S t Q) w := by
  induction s generalizing w with
  | nil => rfl
  | cons e s ih =>
      simp only [List.cons_append, wp_cons]
      exact ⟨fun h v hv => S.act_mono (fun _ => ih.mp) (h v hv),
        fun h v hv => S.act_mono (fun _ => ih.mpr) (h v hv)⟩

theorem Stable.and {P Q : W → Prop} (hP : Stable S P) (hQ : Stable S Q) :
    Stable S (fun w => P w ∧ Q w) :=
  fun _ _ h hPQ => ⟨hP h hPQ.1, hQ h hPQ.2⟩

/-- A script that is fine stays fine while others move. -/
theorem Stable.wp {Q : W → Prop} (hQ : Stable S Q) (s : List E) : Stable S (wp S s Q) := by
  intro v w h hv
  cases s with
  | nil => exact hQ h hv
  | cons e s => exact fun u hu => hv u (S.rely_trans h hu)

/-- One more effect at the end of a script. -/
theorem wp_snoc {s : List E} {e : E} {P Q : W → Prop} {w : W} (hs : wp S s P w)
    (hP : Stable S P) (he : ∀ v, S.good v → P v → S.act e v Q) : wp S (s ++ [e]) Q w := by
  rw [wp_append]
  exact wp_mono (fun v hv u hu => he u (S.rely_good hu) (hP hu hv)) hs

end GeoRaft.Script
