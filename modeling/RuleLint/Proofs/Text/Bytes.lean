import Mathlib.Algebra.Ring.Nat
import RuleLint.Text.Basic

namespace RuleLint.Text

@[simp] theorem decodeUtf8?_encodeUtf8 (s : String) : decodeUtf8? (encodeUtf8 s) = some s := by
  have whole : (⟨s.toUTF8.data.toList.toArray⟩ : ByteArray) = s.toByteArray := by
    rw [Array.toArray_toList]
    rfl
  unfold decodeUtf8? encodeUtf8 String.fromUTF8?
  rw [whole, dif_pos s.isValidUTF8]
  rfl

theorem encodeUtf8_injective {s t : String} (same : encodeUtf8 s = encodeUtf8 t) : s = t := by
  have texts := congrArg decodeUtf8? same
  simpa using texts

theorem littleEndian_succ (count n : Nat) :
    littleEndian (count + 1) n = UInt8.ofNat n :: littleEndian count (n / 256) := by
  simp only [littleEndian, List.range_succ_eq_map, List.map_cons, List.map_map, List.cons.injEq]
  constructor
  · simp
  · apply List.map_congr_left
    intro i _
    simp [Nat.pow_succ', Nat.div_div_eq_div_mul]

@[simp] theorem length_littleEndian (count n : Nat) : (littleEndian count n).length = count := by
  simp [littleEndian]

theorem ofLittleEndian_littleEndian (count n : Nat) :
    ofLittleEndian (littleEndian count n) = n % 256 ^ count := by
  induction count generalizing n with
  | zero => simp [littleEndian, ofLittleEndian, Nat.mod_one]
  | succ count ih =>
      have rest : ofLittleEndian (littleEndian (count + 1) n) =
          (UInt8.ofNat n).toNat + 256 * ofLittleEndian (littleEndian count (n / 256)) := by
        rw [littleEndian_succ]
        rfl
      have power : 256 ^ (count + 1) = 256 * 256 ^ count := Nat.pow_succ'
      rw [rest, ih, UInt8.toNat_ofNat', power, Nat.mod_mul]

theorem littleEndian_mod (count n : Nat) :
    littleEndian count (n % 256 ^ count) = littleEndian count n := by
  induction count generalizing n with
  | zero => rfl
  | succ count ih =>
      have power : 256 ^ (count + 1) = 256 * 256 ^ count := Nat.pow_succ'
      have lowest : UInt8.ofNat (n % (256 * 256 ^ count)) = UInt8.ofNat n := by
        apply UInt8.toNat_inj.mp
        rw [UInt8.toNat_ofNat', UInt8.toNat_ofNat', Nat.mod_mul_right_mod]
      rw [littleEndian_succ, littleEndian_succ, power, lowest, Nat.mod_mul_right_div_self, ih]

theorem littleEndian_ofLittleEndian (bytes : Bytes) :
    littleEndian bytes.length (ofLittleEndian bytes) = bytes := by
  induction bytes with
  | nil => rfl
  | cons b bytes ih =>
      have first := b.toNat_lt
      have lowest : UInt8.ofNat (b.toNat + 256 * ofLittleEndian bytes) = b := by
        apply UInt8.toNat_inj.mp
        rw [UInt8.toNat_ofNat']
        omega
      have others : (b.toNat + 256 * ofLittleEndian bytes) / 256 = ofLittleEndian bytes := by omega
      change littleEndian (bytes.length + 1) (b.toNat + 256 * ofLittleEndian bytes) = _
      rw [littleEndian_succ, lowest, others, ih]

theorem bigEndian_eq_reverse (count n : Nat) :
    bigEndian count n = (littleEndian count n).reverse := by
  simp [bigEndian, littleEndian]

@[simp] theorem length_bigEndian (count n : Nat) : (bigEndian count n).length = count := by
  simp [bigEndian_eq_reverse]

theorem ofBigEndian_bigEndian {count n : Nat} (fits : n < 256 ^ count) :
    ofBigEndian (bigEndian count n) = n := by
  have mirrored : ofBigEndian (bigEndian count n) = ofLittleEndian (littleEndian count n) := by
    simp only [ofBigEndian, bigEndian_eq_reverse, List.foldl_reverse, ofLittleEndian, Nat.add_comm]
  rw [mirrored, ofLittleEndian_littleEndian, Nat.mod_eq_of_lt fits]

@[simp] theorem takeBytes?_append (front rest : Bytes) :
    takeBytes? front.length (front ++ rest) = some (front, rest) := by
  simp [takeBytes?]

end RuleLint.Text
