import Mathlib.Data.List.GetD
import Mathlib.Tactic.Ring
import GeoRaft.Library.Word

/-!
Words and bytes in a buffer, at positions that a pointer walks through. A word
is stored with its most significant byte first.
-/

namespace GeoRaft.Octets

/-! ### Words -/

/-- The four bytes of a word. -/
def ofU32 (v : ℕ) : List UInt8 :=
  [UInt8.ofNat (v >>> 24), UInt8.ofNat (v >>> 16), UInt8.ofNat (v >>> 8), UInt8.ofNat v]

def toU32 (b₀ b₁ b₂ b₃ : UInt8) : ℕ :=
  b₀.toNat <<< 24 ||| b₁.toNat <<< 16 ||| b₂.toNat <<< 8 ||| b₃.toNat

theorem length_ofU32 (v : ℕ) : (ofU32 v).length = 4 := rfl

theorem toU32_eq (b₀ b₁ b₂ b₃ : UInt8) :
    toU32 b₀ b₁ b₂ b₃ =
      b₀.toNat * 2 ^ 24 + b₁.toNat * 2 ^ 16 + b₂.toNat * 2 ^ 8 + b₃.toNat := by
  have h₁ := b₁.toNat_lt
  have h₂ := b₂.toNat_lt
  have h₃ := b₃.toNat_lt
  rw [toU32, Nat.or_assoc, Nat.or_assoc]
  have hlow : b₂.toNat <<< 8 ||| b₃.toNat = b₂.toNat * 2 ^ 8 + b₃.toNat := by
    rw [← Nat.shiftLeft_add_eq_or_of_lt h₃, Nat.shiftLeft_eq]
  have hmid : b₁.toNat <<< 16 ||| (b₂.toNat <<< 8 ||| b₃.toNat) =
      b₁.toNat * 2 ^ 16 + (b₂.toNat * 2 ^ 8 + b₃.toNat) := by
    rw [hlow, ← Nat.shiftLeft_add_eq_or_of_lt (by omega), Nat.shiftLeft_eq]
  rw [hmid, ← Nat.shiftLeft_add_eq_or_of_lt (by omega), Nat.shiftLeft_eq]
  ring

theorem toU32_lt (b₀ b₁ b₂ b₃ : UInt8) : toU32 b₀ b₁ b₂ b₃ < 2 ^ 32 := by
  have h₀ := b₀.toNat_lt
  have h₁ := b₁.toNat_lt
  have h₂ := b₂.toNat_lt
  have h₃ := b₃.toNat_lt
  rw [toU32_eq]
  omega

/-- A word is put together again from its bytes. -/
theorem toU32_ofNat {v : ℕ} (h : v < 2 ^ 32) :
    toU32 (UInt8.ofNat (v >>> 24)) (UInt8.ofNat (v >>> 16)) (UInt8.ofNat (v >>> 8))
      (UInt8.ofNat v) = v := by
  rw [toU32_eq]
  simp only [UInt8.toNat_ofNat', Nat.shiftRight_eq_div_pow]
  omega

/-- Four bytes are the bytes of the word they make. -/
theorem ofU32_toU32 (b₀ b₁ b₂ b₃ : UInt8) : ofU32 (toU32 b₀ b₁ b₂ b₃) = [b₀, b₁, b₂, b₃] := by
  have h₀ := b₀.toNat_lt
  have h₁ := b₁.toNat_lt
  have h₂ := b₂.toNat_lt
  have h₃ := b₃.toNat_lt
  have key : ∀ (b : UInt8) (m : ℕ), m % 2 ^ 8 = b.toNat → UInt8.ofNat m = b := by
    intro b m hm
    apply UInt8.toNat_inj.mp
    rw [UInt8.toNat_ofNat', hm]
  rw [ofU32, toU32_eq]
  simp only [Nat.shiftRight_eq_div_pow]
  rw [key b₀ _ (by omega), key b₁ _ (by omega), key b₂ _ (by omega), key b₃ _ (by omega)]

/-! ### Reading -/

def readU8 (p : ℕ) (buf : List UInt8) : ℕ := (buf.getD p 0).toNat

def readU32Be (p : ℕ) (buf : List UInt8) : ℕ :=
  toU32 (buf.getD p 0) (buf.getD (p + 1) 0) (buf.getD (p + 2) 0) (buf.getD (p + 3) 0)

theorem readU32Be_lt (p : ℕ) (buf : List UInt8) : readU32Be p buf < 2 ^ 32 := toU32_lt ..

theorem getD_append_add (front rest : List UInt8) (p : ℕ) :
    (front ++ rest).getD (front.length + p) 0 = rest.getD p 0 := by
  rw [List.getD_append_right _ _ _ _ (by omega), Nat.add_sub_cancel_left]

/-- Behind what the pointer has passed the rest is read as if it stood alone. -/
theorem readU32Be_append (front rest : List UInt8) (p : ℕ) :
    readU32Be (front.length + p) (front ++ rest) = readU32Be p rest := by
  simp only [readU32Be, add_assoc, getD_append_add]

theorem readU8_append (front rest : List UInt8) (p : ℕ) :
    readU8 (front.length + p) (front ++ rest) = readU8 p rest := by
  simp only [readU8, getD_append_add]

@[simp] theorem readU32Be_skip (v p : ℕ) (rest : List UInt8) :
    readU32Be (p + 4) (ofU32 v ++ rest) = readU32Be p rest := by
  rw [add_comm]
  exact readU32Be_append (ofU32 v) rest p

@[simp] theorem readU8_skip (v p : ℕ) (rest : List UInt8) :
    readU8 (p + 4) (ofU32 v ++ rest) = readU8 p rest := by
  rw [add_comm]
  exact readU8_append (ofU32 v) rest p

@[simp] theorem readU32Be_cons (b : UInt8) (p : ℕ) (rest : List UInt8) :
    readU32Be (p + 1) (b :: rest) = readU32Be p rest := by
  rw [add_comm]
  exact readU32Be_append [b] rest p

theorem readU8_ofNat {v : ℕ} (h : v < 2 ^ 8) (rest : List UInt8) :
    readU8 0 (UInt8.ofNat v :: rest) = v := by
  show (UInt8.ofNat v).toNat = v
  rw [UInt8.toNat_ofNat', Nat.mod_eq_of_lt h]

theorem readU32Be_ofU32 {v : ℕ} (h : v < 2 ^ 32) (rest : List UInt8) :
    readU32Be 0 (ofU32 v ++ rest) = v := toU32_ofNat h

/-- What is read depends only on the bytes under the pointer. -/
theorem readU32Be_congr {n p : ℕ} {buf buf' : List UInt8} (h : buf.take n = buf'.take n)
    (hp : p + 4 ≤ n) : readU32Be p buf = readU32Be p buf' := by
  have key : ∀ k < n, buf.getD k 0 = buf'.getD k 0 := by
    intro k hk
    rw [List.getD_eq_getElem?_getD, List.getD_eq_getElem?_getD, ← List.getElem?_take_of_lt hk, h,
      List.getElem?_take_of_lt hk]
  simp only [readU32Be]
  rw [key p (by omega), key (p + 1) (by omega), key (p + 2) (by omega), key (p + 3) (by omega)]

theorem readU8_congr {n p : ℕ} {buf buf' : List UInt8} (h : buf.take n = buf'.take n)
    (hp : p < n) : readU8 p buf = readU8 p buf' := by
  rw [readU8, readU8, List.getD_eq_getElem?_getD, List.getD_eq_getElem?_getD,
    ← List.getElem?_take_of_lt hp, h, List.getElem?_take_of_lt hp]

/-- The bytes of the word that was read are the bytes that stood there. -/
theorem ofU32_readU32Be {p : ℕ} {buf : List UInt8} (h : p + 4 ≤ buf.length) :
    ofU32 (readU32Be p buf) = (buf.drop p).take 4 := by
  have key : ∀ k (hk : k < buf.length), buf.drop k = buf.getD k 0 :: buf.drop (k + 1) := by
    intro k hk
    rw [List.drop_eq_getElem_cons hk, List.getD_eq_getElem _ _ hk]
  rw [readU32Be, ofU32_toU32, key p (by omega), key (p + 1) (by omega), key (p + 2) (by omega),
    key (p + 3) (by omega)]
  rfl

theorem ofNat_readU8 {p : ℕ} {buf : List UInt8} (h : p < buf.length) :
    [UInt8.ofNat (readU8 p buf)] = (buf.drop p).take 1 := by
  rw [readU8, UInt8.ofNat_toNat, List.drop_eq_getElem_cons h, List.getD_eq_getElem _ _ h]
  rfl

/-! ### Writing -/

def writeU8 (p v : ℕ) (buf : List UInt8) : List UInt8 := buf.set p (UInt8.ofNat v)

def writeU32Be (p v : ℕ) (buf : List UInt8) : List UInt8 :=
  (((buf.set p (UInt8.ofNat (v >>> 24))).set (p + 1) (UInt8.ofNat (v >>> 16))).set (p + 2)
    (UInt8.ofNat (v >>> 8))).set (p + 3) (UInt8.ofNat v)

/-- What one step of a pointer writes. -/
inductive Field
  | word (v : ℕ)
  | byte (v : ℕ)

namespace Field

def bytes : Field → List UInt8
  | word v => ofU32 v
  | byte v => [UInt8.ofNat v]

def write (p : ℕ) (buf : List UInt8) : Field → List UInt8
  | word v => writeU32Be p v buf
  | byte v => writeU8 p v buf

theorem write_length (p : ℕ) (buf : List UInt8) (f : Field) :
    (f.write p buf).length = buf.length := by
  cases f with
  | word v => simp [write, writeU32Be]
  | byte v => simp [write, writeU8]

/-- A write at the pointer leaves what is in front of it and behind it alone. -/
theorem write_append (front rest : List UInt8) (f : Field) (h : f.bytes.length ≤ rest.length) :
    f.write front.length (front ++ rest) = front ++ f.bytes ++ rest.drop f.bytes.length := by
  cases f with
  | word v =>
      obtain ⟨b₀, b₁, b₂, b₃, rest, rfl⟩ : ∃ b₀ b₁ b₂ b₃ r, rest = b₀ :: b₁ :: b₂ :: b₃ :: r := by
        match rest, h with
        | b₀ :: b₁ :: b₂ :: b₃ :: r, _ => exact ⟨b₀, b₁, b₂, b₃, r, rfl⟩
      simp [write, writeU32Be, bytes, ofU32, List.set_append_right]
  | byte v =>
      obtain ⟨b, rest, rfl⟩ : ∃ b r, rest = b :: r := by
        match rest, h with
        | b :: r, _ => exact ⟨b, r, rfl⟩
      simp [write, writeU8, bytes]

end Field

/-- Write the fields one after the other; the pointer ends behind the last one. -/
def writeFields (p : ℕ) (buf : List UInt8) : List Field → ℕ × List UInt8
  | [] => (p, buf)
  | f :: fs => writeFields (p + f.bytes.length) (f.write p buf) fs

/-- The bytes of the fields, in their order. -/
def bytesOf (fs : List Field) : List UInt8 := fs.flatMap Field.bytes

theorem bytesOf_cons (f : Field) (fs : List Field) : bytesOf (f :: fs) = f.bytes ++ bytesOf fs := by
  simp [bytesOf]

theorem bytesOf_append (fs gs : List Field) : bytesOf (fs ++ gs) = bytesOf fs ++ bytesOf gs := by
  simp [bytesOf]

theorem writeFields_append (p : ℕ) (buf : List UInt8) (fs gs : List Field) :
    writeFields p buf (fs ++ gs) =
      writeFields (writeFields p buf fs).1 (writeFields p buf fs).2 gs := by
  induction fs generalizing p buf with
  | nil => rfl
  | cons f fs ih => rw [List.cons_append, writeFields, ih, writeFields]

theorem writeFields_length (p : ℕ) (buf : List UInt8) (fs : List Field) :
    (writeFields p buf fs).2.length = buf.length := by
  induction fs generalizing p buf with
  | nil => rfl
  | cons f fs ih => rw [writeFields, ih, Field.write_length]

theorem writeFields_eq (front rest : List UInt8) (fs : List Field)
    (h : (bytesOf fs).length ≤ rest.length) :
    writeFields front.length (front ++ rest) fs =
      (front.length + (bytesOf fs).length, front ++ bytesOf fs ++ rest.drop (bytesOf fs).length) := by
  induction fs generalizing front rest with
  | nil => simp [writeFields, bytesOf]
  | cons f fs ih =>
      rw [bytesOf_cons, List.length_append] at h
      have hstep := ih (front ++ f.bytes) (rest.drop f.bytes.length)
        (by rw [List.length_drop]; omega)
      rw [writeFields, Field.write_append front rest f (by omega), ← List.length_append, hstep,
        bytesOf_cons]
      simp only [List.length_append, List.append_assoc, List.drop_drop, add_assoc]

/-- Fields written to the start of a buffer. -/
theorem writeFields_zero (buf : List UInt8) (fs : List Field)
    (h : (bytesOf fs).length ≤ buf.length) :
    writeFields 0 buf fs =
      ((bytesOf fs).length, bytesOf fs ++ buf.drop (bytesOf fs).length) := by
  have := writeFields_eq [] buf fs h
  simpa using this

/-! ### Fields that stand in a buffer -/

/-- The bytes of the fields are those that stand in the buffer from the pointer on. -/
def Stands (fs : List Field) (p : ℕ) (buf : List UInt8) : Prop :=
  bytesOf fs = (buf.drop p).take (bytesOf fs).length

namespace Stands

variable {fs gs : List Field} {p : ℕ} {buf : List UInt8}

theorem nil : Stands [] p buf := rfl

theorem append (h : Stands fs p buf) (hg : Stands gs (p + (bytesOf fs).length) buf) :
    Stands (fs ++ gs) p buf := by
  unfold Stands at *
  rw [bytesOf_append, List.length_append, List.take_add, ← h, List.drop_drop, ← hg]

theorem word (hp : p + 4 ≤ buf.length) (h : Stands fs (p + 4) buf) :
    Stands (.word (readU32Be p buf) :: fs) p buf := by
  have hone : Stands [.word (readU32Be p buf)] p buf := by
    unfold Stands
    rw [show bytesOf [.word (readU32Be p buf)] = ofU32 (readU32Be p buf) from rfl, length_ofU32,
      ofU32_readU32Be hp]
  exact hone.append h

theorem byte (hp : p < buf.length) (h : Stands fs (p + 1) buf) :
    Stands (.byte (readU8 p buf) :: fs) p buf := by
  have hone : Stands [.byte (readU8 p buf)] p buf := by
    unfold Stands
    rw [show bytesOf [.byte (readU8 p buf)] = [UInt8.ofNat (readU8 p buf)] from rfl,
      List.length_singleton, ofNat_readU8 hp]
  exact hone.append h

theorem isPrefix (h : Stands fs 0 buf) {n : ℕ} (hn : (bytesOf fs).length ≤ n) :
    bytesOf fs <+: buf.take n := by
  unfold Stands at h
  rw [h, List.drop_zero]
  exact List.take_prefix_take_left hn

end Stands

end GeoRaft.Octets
