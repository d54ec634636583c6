import DartNet.Framing.RoundTrip

/-! The front of a structure comes through a receive function whatever stands behind it. -/
namespace DartNet.Framing
open Packed

/-- Bytes with an end marker have a first one. -/
theorem exists_first_mark {raw : List UInt8} (h : ¬ MarkFree raw) :
    ∃ a b, raw = a ++ b ∧ MarkFree a.dropLast ∧ ¬ MarkFree a := by
  induction raw using List.reverseRecOn with
  | nil => exact absurd (by simp [MarkFree]) h
  | append_singleton raw c ih =>
    by_cases hraw : MarkFree raw
    · exact ⟨raw ++ [c], [], by simp, by simpa using hraw, h⟩
    · obtain ⟨a, b, rfl, ha, hmark⟩ := ih hraw
      exact ⟨a, b ++ [c], by simp, ha, hmark⟩

theorem MarkFree.of_prefix {a raw : List UInt8} (h : MarkFree raw) (ha : a <+: raw) :
    MarkFree a := by
  obtain ⟨b, rfl⟩ := ha
  exact List.IsChain.left_of_append h

/-- The first `k` bytes of the image come back if no end marker occurs before the last of them,
whatever follows. -/
theorem receive_front {α : Type} (L : Layout α) {v : α} {k : ℕ} (hk : k ≤ L.size)
    (hfree : MarkFree ((L.encode v).take k).dropLast) {junk : List UInt8}
    (hjunk : junk.length = L.size + 2) :
    ∃ w rest, receive L junk (frameSends (L.encode v)).flatten = some (w, rest) ∧
      (L.encode w).take k = (L.encode v).take k := by
  have hlen := L.length_encode v
  by_cases hmark : MarkFree (L.encode v)
  · obtain ⟨rest, hr⟩ := (roundTrip_iff L v).mpr
      (hmark.of_prefix (List.dropLast_prefix _)) junk hjunk
    exact ⟨v, rest, hr, rfl⟩
  · obtain ⟨a, b, hab, hfirst, hmark⟩ := exists_first_mark hmark
    have hka : k ≤ a.length := by
      by_contra hlt
      apply hmark
      apply hfree.of_prefix
      rw [List.dropLast_eq_take, List.take_take, hab, List.length_take]
      apply List.prefix_of_prefix_length_le (List.prefix_append a b) (List.take_prefix ..)
      have habl : (a ++ b).length = L.size := by rw [← hab, hlen]
      rw [List.length_take, habl]
      omega
    have hle : a.length ≤ junk.length := by
      have habl : (a ++ b).length = L.size := by rw [← hab, hlen]
      rw [List.length_append] at habl
      omega
    obtain ⟨tail, hr⟩ := receive_stop hle hfirst hmark (b ++ bufend)
    have hframe : bufstart ++ (a ++ (b ++ bufend)) = (frameSends (L.encode v)).flatten := by
      rw [frameSends_flatten, frame, hab, List.append_assoc, List.append_assoc]
    rw [hframe] at hr
    have hrecv : receive L junk (frameSends (L.encode v)).flatten =
        some (copyOut L (a ++ tail), b ++ bufend) := by
      rw [receive, hr, Option.map_some]
    obtain ⟨buf, hbuf, hw⟩ := encode_of_receive L hjunk hrecv
    obtain rfl : buf = a ++ tail := by
      rw [hr] at hbuf
      exact (Prod.mk.inj (Option.some.inj hbuf)).1.symm
    refine ⟨_, _, hrecv, ?_⟩
    rw [hw, List.take_take, Nat.min_eq_left hk, hab, List.take_append_of_le_length hka,
      List.take_append_of_le_length hka]

end DartNet.Framing
