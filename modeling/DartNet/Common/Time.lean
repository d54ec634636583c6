import DartNet.Common.Seg
import DartNet.Foundation.Clock

/-! `current_utc_time_ns` of `client/srt_client.c` and `server/srt_server.c`, without `__MACH__`.
Instants are nanoseconds since the epoch. -/
namespace DartNet
open Clock

/-- `current_utc_time_ns`, called at an instant. -/
def currentUtcTimeNs (t : ℕ) : UInt64 := UInt64.ofNat (t % nanosecondsPerSecond)

theorem toNat_currentUtcTimeNs (t : ℕ) :
    (currentUtcTimeNs t).toNat = reading nanosecondsPerSecond 1 t := by
  have h : t % nanosecondsPerSecond < nanosecondsPerSecond := Nat.mod_lt _ (by decide)
  rw [currentUtcTimeNs, reading, Nat.div_one, UInt64.toNat_ofNat_of_lt']
  exact Nat.lt_trans h (by decide)

/-- The readings of `current_utc_time_ns` in microseconds. -/
theorem toNat_micros (t : ℕ) :
    (currentUtcTimeNs t / UInt64.ofNat nsToMicroseconds).toNat =
      reading nanosecondsPerSecond nsToMicroseconds t := by
  rw [UInt64.toNat_div, toNat_currentUtcTimeNs, reading, reading, Nat.div_one]
  rfl

/-- `tend - tstart > limit` for readings taken at two instants. -/
theorem elapsed_iff {limit : ℕ} (hlimit : limit ≤ nanosecondsPerSecond) (s t : ℕ) :
    limit < (currentUtcTimeNs t - currentUtcTimeNs s).toNat ↔
      Fires limit (reading nanosecondsPerSecond 1 s) (reading nanosecondsPerSecond 1 t) := by
  have hlt (u : ℕ) : (currentUtcTimeNs u).toNat < nanosecondsPerSecond := by
    rw [toNat_currentUtcTimeNs]
    exact reading_lt (by decide) u
  rw [← toNat_currentUtcTimeNs, ← toNat_currentUtcTimeNs]
  apply lt_sub_iff (hlt s) (hlt t)
  simp only [nanosecondsPerSecond, UInt64.size] at *
  omega

/-- The difference of two readings passes a limit only after the limit, unless a second begins
within it. -/
theorem elapsed_full_iff {limit s t : ℕ} (hlimit : limit ≤ nanosecondsPerSecond) (hst : s ≤ t) :
    (limit < (currentUtcTimeNs t - currentUtcTimeNs s).toNat → s + limit < t) ↔
      (t ≤ s + limit → currentUtcTimeNs s ≤ currentUtcTimeNs t) := by
  have h := fires_full_iff nanosecondsPerSecond limit Nat.one_pos hst
  rw [Nat.mul_one] at h
  rw [elapsed_iff hlimit, h, UInt64.le_iff_toNat_le, toNat_currentUtcTimeNs,
    toNat_currentUtcTimeNs]

/-- The difference of two readings, the later one raised by a second if it shows less. -/
theorem toNat_corrected {s t : ℕ} (hst : s ≤ t) :
    ((if currentUtcTimeNs t < currentUtcTimeNs s then currentUtcTimeNs t + 1000000000
      else currentUtcTimeNs t) - currentUtcTimeNs s).toNat = (t - s) % nanosecondsPerSecond := by
  have hperiod : 0 < nanosecondsPerSecond := by decide
  have hs : reading nanosecondsPerSecond 1 s < nanosecondsPerSecond := reading_lt hperiod s
  have ht : reading nanosecondsPerSecond 1 t < nanosecondsPerSecond := reading_lt hperiod t
  have hsub := corrected_sub hperiod hst
  simp only [← toNat_currentUtcTimeNs, ← UInt64.lt_iff_toNat_lt] at hs ht hsub
  rw [← hsub]
  simp only [nanosecondsPerSecond] at hs ht ⊢
  split
  next hlt =>
    rw [UInt64.toNat_sub, UInt64.toNat_add]
    simp
    omega
  next hle => rw [UInt64.toNat_sub_of_le _ _ (UInt64.not_lt.mp hle), Nat.add_zero]

end DartNet
