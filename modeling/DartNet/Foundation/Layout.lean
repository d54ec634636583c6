import Mathlib.Data.Vector.Basic
import Mathlib.Tactic.Common

/-! Packed little-endian memory layouts. A layout carries the proofs that every
image has the declared size and that reading and writing are inverse. -/
namespace Packed

structure Layout (α : Type*) where
  size : ℕ
  encode : α → List UInt8
  decode : List UInt8 → α
  length_encode : ∀ a, (encode a).length = size
  decode_append : ∀ a rest, decode (encode a ++ rest) = a
  encode_decode : ∀ bs, bs.length = size → encode (decode bs) = bs

namespace Layout
variable {α β : Type*}

theorem decode_encode (L : Layout α) (a : α) : L.decode (L.encode a) = a := by
  simpa using L.decode_append a []

theorem encode_injective (L : Layout α) : Function.Injective L.encode := by
  intro a b h
  rw [← L.decode_encode a, h, L.decode_encode]

/-- Reading uses the bytes in front only. -/
theorem encode_decode_take (L : Layout α) {bs : List UInt8} (h : L.size ≤ bs.length) :
    L.encode (L.decode bs) = bs.take L.size := by
  have htake := L.encode_decode (bs.take L.size) (by simp [h])
  conv_lhs => rw [← List.take_append_drop L.size bs, ← htake, L.decode_append, htake]

/-- The image with its size. -/
def image (L : Layout α) (a : α) : List.Vector UInt8 L.size := ⟨L.encode a, L.length_encode a⟩

@[simp] theorem image_val (L : Layout α) (a : α) : (L.image a).val = L.encode a := rfl

/-- Little-endian digits of a natural number in base 256. -/
def digits : ℕ → ℕ → List UInt8
  | 0, _ => []
  | k + 1, v => UInt8.ofNat v :: digits k (v / 256)

def value : ℕ → List UInt8 → ℕ
  | 0, _ => 0
  | _ + 1, [] => 0
  | k + 1, b :: bs => b.toNat + 256 * value k bs

@[simp] theorem length_digits (k v : ℕ) : (digits k v).length = k := by
  induction k generalizing v with
  | zero => rfl
  | succ k ih => simp [digits, ih]

theorem value_digits (k v : ℕ) (rest : List UInt8) :
    value k (digits k v ++ rest) = v % 256 ^ k := by
  induction k generalizing v with
  | zero => simp [value, Nat.mod_one]
  | succ k ih =>
    simp only [digits, List.cons_append, value, ih, UInt8.toNat_ofNat', Nat.pow_succ']
    exact (Nat.mod_mul ..).symm

theorem value_lt (k : ℕ) (bs : List UInt8) : value k bs < 256 ^ k := by
  induction k generalizing bs with
  | zero => simp [value]
  | succ k ih =>
    cases bs with
    | nil => exact Nat.pow_pos (by decide)
    | cons b bs =>
      have hb := b.toNat_lt
      have ht := ih bs
      simp only [value, Nat.pow_succ']
      omega

theorem digits_value (k : ℕ) (bs : List UInt8) (h : bs.length = k) :
    digits k (value k bs) = bs := by
  induction k generalizing bs with
  | zero => exact (List.eq_nil_of_length_eq_zero h).symm
  | succ k ih =>
    cases bs with
    | nil => simp at h
    | cons b bs =>
      have hb := b.toNat_lt
      have hd : (b.toNat + 256 * value k bs) / 256 = value k bs := by omega
      simp only [value, digits, hd, ih bs (by simpa using h), List.cons.injEq, and_true]
      apply UInt8.toNat_inj.mp
      simp only [UInt8.toNat_ofNat']
      omega

/-- `unsigned short` -/
def u16 : Layout UInt16 where
  size := 2
  encode v := digits 2 v.toNat
  decode bs := UInt16.ofNat (value 2 bs)
  length_encode _ := length_digits _ _
  decode_append v rest := by
    rw [value_digits, Nat.mod_eq_of_lt (show v.toNat < 256 ^ 2 from v.toNat_lt),
      UInt16.ofNat_toNat]
  encode_decode bs h := by
    rw [UInt16.toNat_ofNat', Nat.mod_eq_of_lt (show value 2 bs < 2 ^ 16 from value_lt 2 bs),
      digits_value 2 bs h]

/-- `unsigned int`, and the bit pattern of an `int` -/
def u32 : Layout UInt32 where
  size := 4
  encode v := digits 4 v.toNat
  decode bs := UInt32.ofNat (value 4 bs)
  length_encode _ := length_digits _ _
  decode_append v rest := by
    rw [value_digits, Nat.mod_eq_of_lt (show v.toNat < 256 ^ 4 from v.toNat_lt),
      UInt32.ofNat_toNat]
  encode_decode bs h := by
    rw [UInt32.toNat_ofNat', Nat.mod_eq_of_lt (show value 4 bs < 2 ^ 32 from value_lt 4 bs),
      digits_value 4 bs h]

/-- `char[n]` -/
def bytes (n : ℕ) : Layout (List.Vector UInt8 n) where
  size := n
  encode v := v.val
  decode bs := ⟨(bs ++ List.replicate n 0).take n, by simp⟩
  length_encode v := v.property
  decode_append v rest := Subtype.ext (by simp [List.append_assoc, List.take_left' v.property])
  encode_decode bs h := by simp [List.take_left' h]

/-- Consecutive members without padding. -/
def pair (L : Layout α) (M : Layout β) : Layout (α × β) where
  size := L.size + M.size
  encode p := L.encode p.1 ++ M.encode p.2
  decode bs := (L.decode (bs.take L.size), M.decode (bs.drop L.size))
  length_encode p := by simp [L.length_encode, M.length_encode]
  decode_append p rest := by
    have hl := L.length_encode p.1
    simp [List.append_assoc, List.take_left' hl, List.drop_left' hl, L.decode_encode,
      M.decode_append]
  encode_decode bs h := by
    rw [L.encode_decode _ (by simp; omega), M.encode_decode _ (by simp; omega)]
    exact List.take_append_drop _ _

/-- A structure is laid out as the tuple of its members. -/
def ofEquiv (e : α ≃ β) (L : Layout β) : Layout α where
  size := L.size
  encode a := L.encode (e a)
  decode bs := e.symm (L.decode bs)
  length_encode a := L.length_encode (e a)
  decode_append a rest := by rw [L.decode_append, e.symm_apply_apply]
  encode_decode bs h := by rw [e.apply_symm_apply, L.encode_decode bs h]

end Layout
end Packed
