import Mathlib.Data.List.Induction
import Mathlib.Order.Lattice
import Mathlib.Order.Nat

/-!
A buffer that is written round and round.

Behind `w` cells and a position that wraps stand the last `w` values written,
starting over at the position: the oldest value is the next to go.
-/

namespace GeoRaft.Ring

variable {α : Type} {w : ℕ}

/-- A value goes to the position, and the position moves on. -/
def push (w : ℕ) (s : List α × ℕ) (x : α) : List α × ℕ := (s.1.set s.2 x, (s.2 + 1) % w)

/-- The last `w` values, the oldest first. -/
def latest (w : ℕ) (ys : List α) : List α := ys.drop (ys.length - w)

/-- How they lie in the buffer when `k` values have been written. -/
def wrapped (w k : ℕ) (ys : List α) : List α :=
  (latest w ys).drop (w - k % w) ++ (latest w ys).take (w - k % w)

theorem length_latest {ys : List α} (h : w ≤ ys.length) : (latest w ys).length = w := by
  rw [latest, List.length_drop]
  omega

theorem latest_snoc {ys : List α} (h : w ≤ ys.length) (hw : 0 < w) (x : α) :
    latest w (ys ++ [x]) = (latest w ys).drop 1 ++ [x] := by
  rw [latest, latest, List.length_append, List.length_singleton, List.drop_drop,
    List.drop_append_of_le_length (by omega)]
  congr 2
  omega

theorem push_wrapped {ys : List α} (h : w ≤ ys.length) (hw : 0 < w) (k : ℕ) (x : α) :
    push w (wrapped w k ys, k % w) x = (wrapped w (k + 1) (ys ++ [x]), (k + 1) % w) := by
  have hr := Nat.mod_lt k hw
  have hlen := length_latest h
  rw [push, wrapped, wrapped, latest_snoc h hw]
  generalize latest w ys = l at hlen ⊢
  have hmod : (k + 1) % w = (k % w + 1) % w := (Nat.mod_add_mod k w 1).symm
  rw [hmod]
  generalize k % w = r at hr ⊢
  have hfront : (l.drop (w - r)).length = r := by
    rw [List.length_drop]
    omega
  congr 1
  rw [List.set_append_right _ _ (by omega), hfront, Nat.sub_self]
  obtain ⟨a, l, rfl⟩ : ∃ a t, l = a :: t := List.exists_cons_of_length_pos (by omega)
  rw [List.length_cons] at hlen
  have hback : w - r = (w - r - 1) + 1 := by omega
  rcases Nat.lt_or_ge (r + 1) w with hlt | hge
  · rw [Nat.mod_eq_of_lt hlt, hback]
    simp only [List.drop_succ_cons, List.take_succ_cons, List.drop_zero, List.set_cons_zero,
      List.drop_zero]
    rw [show w - (r + 1) = w - r - 1 by omega, List.drop_append_of_le_length (by omega),
      List.take_append_of_le_length (by omega), List.append_assoc]
    rfl
  · obtain rfl : w = r + 1 := by omega
    have hfull : (l ++ [x]).length = r + 1 := by
      rw [List.length_append, List.length_singleton]
      omega
    have hrest : (a :: l).drop 1 = l := rfl
    have hone : r + 1 - r = 1 := by omega
    rw [Nat.mod_self, hone, Nat.sub_zero, hrest, List.drop_of_length_le hfull.le,
      List.take_of_length_le hfull.le]
    rfl

/-- A buffer that starts with `w` times the same value. -/
theorem foldl_push (hw : 0 < w) (z : α) (xs : List α) :
    xs.foldl (push w) (List.replicate w z, 0) =
      (wrapped w xs.length (List.replicate w z ++ xs), xs.length % w) := by
  induction xs using List.reverseRecOn with
  | nil => simp [wrapped, latest]
  | append_singleton xs x ih =>
      have hlen : w ≤ (List.replicate w z ++ xs).length := by simp
      rw [List.foldl_append, ih, List.foldl_cons, List.foldl_nil, push_wrapped hlen hw,
        List.append_assoc, List.length_append, List.length_singleton]

/-- What has been written, up to the order, as long as the buffer remembers it. -/
theorem perm_wrapped (hw : 0 < w) (z : α) (xs : List α) :
    ((wrapped w xs.length (List.replicate w z ++ xs)).take (min xs.length w)).Perm
      (xs.drop (xs.length - min xs.length w)) := by
  rcases Nat.lt_or_ge xs.length w with hlt | hge
  · have hlatest : latest w (List.replicate w z ++ xs) = List.replicate (w - xs.length) z ++ xs := by
      rw [latest, List.length_append, List.length_replicate, Nat.add_sub_cancel_left,
        List.drop_append_of_le_length (by simp; omega), List.drop_replicate]
    rw [wrapped, hlatest, Nat.mod_eq_of_lt hlt, Nat.min_eq_left hlt.le, Nat.sub_self, List.drop_zero]
    simp
  · have hlatest : latest w (List.replicate w z ++ xs) = xs.drop (xs.length - w) := by
      rw [latest, List.length_append, List.length_replicate, Nat.add_sub_cancel_left, List.drop_append]
      simp [hge]
    rw [wrapped, hlatest, Nat.min_eq_right hge]
    refine (List.take_of_length_le ?_).symm ▸ ?_
    · simp
      omega
    · refine List.perm_append_comm.trans ?_
      rw [List.take_append_drop]

end GeoRaft.Ring
