import Mathlib.Data.List.Basic
import Mathlib.Tactic.Ring

/-!
# Records of numbers, low bytes first

A record is a list of numbers, each with its width in bytes. A record that was written is read as
what its fields hold of the numbers (`read_record`): a number that its field is too narrow for wraps.
-/

namespace LittleEndian

open List

/-- The lowest `width` bytes of a number. -/
def bytes : ℕ → ℕ → List UInt8
  | 0, _ => []
  | width + 1, n => .ofNat n :: bytes width (n / 256)

def value : List UInt8 → ℕ
  | [] => 0
  | b :: bs => b.toNat + 256 * value bs

/-- Fields one after the other, as pairs of a width and a number. -/
def record (fields : List (ℕ × ℕ)) : List UInt8 :=
  fields.flatMap fun field => bytes field.1 field.2

/-- The numbers in fields of these widths, and the bytes after them. -/
def read : List ℕ → List UInt8 → Option (List ℕ × List UInt8)
  | [], bs => some ([], bs)
  | width :: widths, bs =>
    if bs.length < width then none
    else do
      let (values, rest) ← read widths (bs.drop width)
      return (value (bs.take width) :: values, rest)

theorem length_bytes (width n : ℕ) : (bytes width n).length = width := by
  induction width generalizing n with
  | zero => rfl
  | succ width ih => rw [bytes, length_cons, ih]

theorem value_bytes (width n : ℕ) : value (bytes width n) = n % 256 ^ width := by
  induction width generalizing n with
  | zero => rw [pow_zero, Nat.mod_one]; rfl
  | succ width ih =>
    have hbyte : (UInt8.ofNat n).toNat = n % 256 := rfl
    rw [bytes, value, ih, hbyte, pow_succ, Nat.mul_comm (256 ^ width), Nat.mod_mul]

variable (fields : List (ℕ × ℕ))

theorem length_record : (record fields).length = (fields.map (·.1)).sum := by
  induction fields with
  | nil => rfl
  | cons field fields ih =>
    unfold record at ih ⊢
    rw [flatMap_cons, length_append, length_bytes, ih]
    rfl

theorem read_record (rest : List UInt8) :
    read (fields.map (·.1)) (record fields ++ rest) =
      some (fields.map fun field => field.2 % 256 ^ field.1, rest) := by
  induction fields with
  | nil => rfl
  | cons field fields ih =>
    obtain ⟨width, n⟩ := field
    have hsplit : record ((width, n) :: fields) ++ rest =
        bytes width n ++ (record fields ++ rest) := by
      unfold record
      rw [flatMap_cons, append_assoc]
    have hlength := length_bytes width n
    rw [hsplit, map_cons, read, if_neg (by rw [length_append]; omega),
      drop_left' hlength, take_left' hlength, ih, value_bytes]
    rfl

/-- Numbers that their fields hold are read as they were written. -/
theorem read_record_of_lt (rest : List UInt8) (h : ∀ field ∈ fields, field.2 < 256 ^ field.1) :
    read (fields.map (·.1)) (record fields ++ rest) = some (fields.map (·.2), rest) := by
  have hvalues : (fields.map fun field => field.2 % 256 ^ field.1) = fields.map (·.2) :=
    map_congr_left fun field hfield => Nat.mod_eq_of_lt (h field hfield)
  rw [read_record, hvalues]

/-- So many bytes, and the bytes after them. -/
def readBytes (count : ℕ) (bs : List UInt8) : Option (List UInt8 × List UInt8) :=
  if bs.length < count then none else some (bs.take count, bs.drop count)

theorem readBytes_append (bs rest : List UInt8) :
    readBytes bs.length (bs ++ rest) = some (bs, rest) := by
  unfold readBytes
  rw [if_neg (by rw [length_append]; omega), take_left, drop_left]

end LittleEndian
