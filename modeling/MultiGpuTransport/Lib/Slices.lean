import MultiGpuTransport.Tensor
import Mathlib.Tactic.Ring

/-!
# Bytes of a file

Numbers as little-endian bytes, and the slice of a file that starts at a place and has a length.
-/
namespace MultiGpuTransport

/-- The lowest w bytes of a number, the lowest first. -/
def toLittleEndian : ℕ → ℕ → Bytes
  | 0, _ => []
  | w + 1, n => UInt8.ofNat n :: toLittleEndian w (n / 256)

def ofLittleEndian : Bytes → ℕ
  | [] => 0
  | byte :: bytes => byte.toNat + 256 * ofLittleEndian bytes

@[simp] theorem length_toLittleEndian (w n : ℕ) : (toLittleEndian w n).length = w := by
  induction w generalizing n with
  | zero => rfl
  | succ w ih => rw [toLittleEndian, List.length_cons, ih]

theorem ofLittleEndian_toLittleEndian {w n : ℕ} (h : n < 256 ^ w) :
    ofLittleEndian (toLittleEndian w n) = n := by
  induction w generalizing n with
  | zero =>
    rw [pow_zero, Nat.lt_one_iff] at h
    rw [h]
    rfl
  | succ w ih =>
    have hbyte : (UInt8.ofNat n).toNat = n % 256 := UInt8.toNat_ofNat'
    rw [toLittleEndian, ofLittleEndian, hbyte, ih (Nat.div_lt_of_lt_mul (by rwa [← pow_succ']))]
    exact Nat.mod_add_div n 256

/-! ### Slices -/

def slice (bytes : Bytes) (start length : ℕ) : Bytes := (bytes.drop start).take length

theorem length_slice (bytes : Bytes) (start length : ℕ) :
    (slice bytes start length).length = min length (bytes.length - start) := by
  rw [slice, List.length_take, List.length_drop]

theorem slice_append_left {a : Bytes} {n : ℕ} (h : a.length = n) (b : Bytes) :
    slice (a ++ b) 0 n = a := by
  rw [slice, List.drop_zero, ← h, List.take_left]

theorem slice_append_right {a : Bytes} {n : ℕ} (h : a.length = n) (b : Bytes) (start length : ℕ) :
    slice (a ++ b) (n + start) length = slice b start length := by
  rw [slice, slice, ← List.drop_drop, ← h, List.drop_left]

/-- The slice between two parts of a file. -/
theorem slice_middle {a b : Bytes} {n length : ℕ} (ha : a.length = n) (hb : b.length = length)
    (c : Bytes) : slice (a ++ (b ++ c)) n length = b := by
  rw [← Nat.add_zero n, slice_append_right ha, slice_append_left hb]

end MultiGpuTransport
