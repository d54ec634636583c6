import DartNet.Common.Seg
import DartNet.Foundation.Memory

/-! The receive buffer of `server/srt_server.c`. The code at work is the same for cells of any
type, so a history of who wrote each cell is kept in a second buffer. -/
namespace DartNet.Server
open Memory

/-- The allocated block with the pointer `recvBuf` into it. -/
structure RecvBuf (β : Type) where
  mem : ℕ → β
  recvBuf : ℕ
  usedBufLen : UInt32

namespace RecvBuf
variable {β : Type}

def fresh (zero : β) : RecvBuf β := ⟨fun _ => zero, 0, 0⟩

/-- The `usedBufLen` cells behind which `recvBuf` points. -/
def contents (b : RecvBuf β) : List β :=
  read b.mem (b.recvBuf - b.usedBufLen.toNat) b.usedBufLen.toNat

/-- Append the data of a segment. -/
def store (b : RecvBuf β) (data : List β) : RecvBuf β where
  mem := write b.mem b.recvBuf data
  recvBuf := b.recvBuf + data.length
  usedBufLen := b.usedBufLen + UInt32.ofNat data.length

/-- The locked section of `srt_server_recv`: copy the data out, move the rest to the front
and clear what is behind it. -/
def copyOut (zero : β) (b : RecvBuf β) (length : UInt32) : List β × RecvBuf β :=
  let base := b.recvBuf - b.usedBufLen.toNat
  let usedBufLen := b.usedBufLen - length
  let moved := move b.mem base (base + length.toNat) usedBufLen.toNat
  let tempPtr := base + usedBufLen.toNat
  (read b.mem base length.toNat,
    ⟨fill moved tempPtr zero (receiveBufSize - usedBufLen.toNat), tempPtr, usedBufLen⟩)

/-- The pointer stands `usedBufLen` behind the start of the block. -/
def Wf (b : RecvBuf β) : Prop := b.recvBuf = b.usedBufLen.toNat

theorem Wf.fresh (zero : β) : (fresh zero).Wf := rfl

@[simp] theorem contents_fresh (zero : β) : (fresh zero).contents = [] := rfl

theorem Wf.contents {b : RecvBuf β} (h : b.Wf) :
    b.contents = read b.mem 0 b.usedBufLen.toNat := by
  rw [RecvBuf.contents, h, Nat.sub_self]

theorem length_contents (b : RecvBuf β) : b.contents.length = b.usedBufLen.toNat :=
  length_read ..

@[simp] theorem store_nil (b : RecvBuf β) : b.store [] = b := by
  simp [store]

theorem usedBufLen_store {b : RecvBuf β} {data : List β}
    (hlt : b.usedBufLen.toNat + data.length < 2 ^ 32) :
    (b.store data).usedBufLen.toNat = b.usedBufLen.toNat + data.length := by
  simp only [store, UInt32.toNat_add, UInt32.toNat_ofNat']
  omega

theorem Wf.store {b : RecvBuf β} (h : b.Wf) {data : List β}
    (hlt : b.usedBufLen.toNat + data.length < 2 ^ 32) : (b.store data).Wf := by
  have hused := usedBufLen_store hlt
  have hptr : b.recvBuf = b.usedBufLen.toNat := h
  rw [Wf, hused, RecvBuf.store, hptr]

theorem Wf.contents_store {b : RecvBuf β} (h : b.Wf) {data : List β}
    (hlt : b.usedBufLen.toNat + data.length < 2 ^ 32) :
    (b.store data).contents = b.contents ++ data := by
  have hptr : b.recvBuf = b.usedBufLen.toNat := h
  rw [(h.store hlt).contents, usedBufLen_store hlt, h.contents, ← read_append]
  simp only [RecvBuf.store, hptr, Nat.zero_add]
  rw [read_write_before _ (by omega), read_write_self]

theorem copyOut_fst {zero : β} {b : RecvBuf β} {length : UInt32}
    (hle : length.toNat ≤ b.usedBufLen.toNat) :
    (b.copyOut zero length).1 = b.contents.take length.toNat := (take_read _ hle).symm

theorem usedBufLen_copyOut (zero : β) {b : RecvBuf β} {length : UInt32}
    (hle : length.toNat ≤ b.usedBufLen.toNat) :
    (b.copyOut zero length).2.usedBufLen.toNat = b.usedBufLen.toNat - length.toNat :=
  UInt32.toNat_sub_of_le _ _ hle

theorem Wf.copyOut {zero : β} {b : RecvBuf β} (h : b.Wf) (length : UInt32) :
    (b.copyOut zero length).2.Wf := by
  have hptr : b.recvBuf = b.usedBufLen.toNat := h
  simp [Wf, RecvBuf.copyOut, hptr]

theorem Wf.contents_copyOut {zero : β} {b : RecvBuf β} (h : b.Wf) {length : UInt32}
    (hle : length.toNat ≤ b.usedBufLen.toNat) :
    (b.copyOut zero length).2.contents = b.contents.drop length.toNat := by
  have hptr : b.recvBuf = b.usedBufLen.toNat := h
  have hlen := usedBufLen_copyOut zero hle
  rw [(h.copyOut length).contents, hlen, h.contents, drop_read _ hle]
  simp only [RecvBuf.copyOut, hptr, Nat.sub_self, Nat.zero_add] at hlen ⊢
  rw [hlen, read_fill_before _ (by omega), read_move_self]

/-- The block at address `base` holds these cells at its start and cleared ones behind them,
and the pointer stands where the next one goes. -/
structure Holds (zero : β) (base : ℕ) (b : RecvBuf β) (held : List β) : Prop where
  ptr : b.recvBuf = base + b.usedBufLen.toNat
  room : b.usedBufLen.toNat < receiveBufSize
  held : read b.mem base b.usedBufLen.toNat = held
  cleared : ∀ i, b.usedBufLen.toNat ≤ i → i < receiveBufSize → b.mem (base + i) = zero

namespace Holds
variable {zero : β} {base : ℕ} {b : RecvBuf β} {held : List β}

theorem allocated {mem : ℕ → β} (h : ∀ i < receiveBufSize, mem (base + i) = zero) :
    Holds zero base ⟨mem, base, 0⟩ [] where
  ptr := rfl
  room := show 0 < receiveBufSize by decide
  held := rfl
  cleared i _ hi := h i hi

theorem length (h : Holds zero base b held) : held.length = b.usedBufLen.toNat := by
  rw [← h.held, length_read]

theorem start (h : Holds zero base b held) : b.recvBuf - b.usedBufLen.toNat = base := by
  rw [h.ptr, Nat.add_sub_cancel]

theorem store (h : Holds zero base b held) {data : List β}
    (hfit : b.usedBufLen.toNat + data.length < receiveBufSize) :
    Holds zero base (b.store data) (held ++ data) := by
  have hsize : receiveBufSize < 2 ^ 32 := by decide
  have hused : (b.store data).usedBufLen.toNat = b.usedBufLen.toNat + data.length :=
    usedBufLen_store (by omega)
  constructor
  · rw [hused, RecvBuf.store, h.ptr, Nat.add_assoc]
  · rwa [hused]
  · rw [hused, ← read_append, ← h.held]
    simp only [RecvBuf.store, h.ptr]
    rw [read_write_before _ (by omega), read_write_self]
  · intro i hi hlt
    rw [hused] at hi
    simp only [RecvBuf.store, h.ptr]
    rw [write_behind _ (by omega)]
    exact h.cleared i (by omega) hlt

theorem copyOut (h : Holds zero base b held) {length : UInt32}
    (hle : length.toNat ≤ b.usedBufLen.toNat) :
    (b.copyOut zero length).1 = held.take length.toNat ∧
      Holds zero base (b.copyOut zero length).2 (held.drop length.toNat) := by
  have hused := usedBufLen_copyOut zero hle
  have hmove : (b.usedBufLen - length).toNat = b.usedBufLen.toNat - length.toNat := hused
  constructor
  · rw [copyOut_fst hle, contents, h.start, h.held]
  constructor
  · rw [hused]
    simp only [RecvBuf.copyOut, h.start, hmove]
  · rw [hused]
    exact (Nat.sub_le _ _).trans_lt h.room
  · rw [hused, ← h.held, drop_read _ hle]
    simp only [RecvBuf.copyOut, h.start, hmove]
    rw [read_fill_before _ (by omega), read_move_self]
  · intro i hi hlt
    rw [hused] at hi
    simp only [RecvBuf.copyOut, h.start, hmove]
    exact fill_inside _ _ (by omega) (by omega)

end Holds

/-- The range that `memcpy` fills with the data of a segment: its address and length. -/
def storeSpan (b : RecvBuf β) (length : ℕ) : ℕ × ℕ := (b.recvBuf, length)

/-- The ranges that `srt_server_recv` reads by `memcpy` and `memmove`, and writes by `memmove`
and `memset`. -/
def copyOutSpans (b : RecvBuf β) (length : UInt32) : List (ℕ × ℕ) :=
  let base := b.recvBuf - b.usedBufLen.toNat
  let usedBufLen := b.usedBufLen - length
  [(base, length.toNat), (base + length.toNat, usedBufLen.toNat), (base, usedBufLen.toNat),
    (base + usedBufLen.toNat, receiveBufSize - usedBufLen.toNat)]

/-- The cell lies in the range. -/
def Covers (span : ℕ × ℕ) (a : ℕ) : Prop := span.1 ≤ a ∧ a < span.1 + span.2

theorem store_frame (b : RecvBuf β) (data : List β) {a : ℕ}
    (h : ¬ Covers (b.storeSpan data.length) a) : (b.store data).mem a = b.mem a :=
  write_outside b.mem h

theorem copyOut_frame (zero : β) (b : RecvBuf β) (length : UInt32) {a : ℕ}
    (h : ∀ span ∈ b.copyOutSpans length, ¬ Covers span a) :
    (b.copyOut zero length).2.mem a = b.mem a := by
  simp only [copyOutSpans, List.forall_mem_cons, Covers] at h
  obtain ⟨_, _, hmove, hfill, _⟩ := h
  simp only [copyOut, fill, move]
  rw [write_outside _ (by rwa [List.length_replicate]),
    write_outside _ (by rwa [length_read])]

/-- The range lies in the block. -/
def Inside (base : ℕ) (span : ℕ × ℕ) : Prop :=
  base ≤ span.1 ∧ span.1 + span.2 ≤ base + receiveBufSize

theorem Holds.storeSpan_inside {zero : β} {base : ℕ} {b : RecvBuf β} {held : List β}
    (h : Holds zero base b held) {length : ℕ}
    (hfit : b.usedBufLen.toNat + length < receiveBufSize) :
    Inside base (b.storeSpan length) := by
  have hptr := h.ptr
  unfold Inside storeSpan
  omega

theorem Holds.copyOutSpans_inside {zero : β} {base : ℕ} {b : RecvBuf β} {held : List β}
    (h : Holds zero base b held) {length : UInt32}
    (hle : length.toNat ≤ b.usedBufLen.toNat) :
    ∀ span ∈ b.copyOutSpans length, Inside base span := by
  have hroom := h.room
  have hmove : (b.usedBufLen - length).toNat = b.usedBufLen.toNat - length.toNat :=
    usedBufLen_copyOut zero hle
  simp only [copyOutSpans, h.start, hmove, List.forall_mem_cons, Inside]
  refine ⟨by omega, by omega, by omega, by omega, by simp⟩

end RecvBuf
end DartNet.Server
