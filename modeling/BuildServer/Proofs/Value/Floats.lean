import BuildServer.Proofs.Json.Doubles
import BuildServer.Proofs.Value.Reading

/-! # Floats that are written and read back

A finite float is written with digits that identify it, but these digits are scaled with up to three
roundings before the last one. So the float that is read back has the sign of the one that was written and
is one of its neighbours at most three places away. It is the same one where nothing is rounded before: the
digits that are written make a double, and so does the power of ten.
-/

namespace BuildServer

/-- Whether a double is written with digits and a power of ten that are doubles themselves. -/
def Binary64.Scales (x : Binary64) : Prop :=
  x.isZero = true ∨ (Decimal.shortest x).written.1 ≤ 2 * Binary64.leadingPlace ∧
    -22 ≤ (Decimal.shortest x).written.2 ∧ (Decimal.shortest x).written.2 ≤ 22

instance (x : Binary64) : Decidable x.Scales := inferInstanceAs (Decidable (_ ∨ _))

namespace Value

open Json Binary64

theorem decode_zero (negative : Bool) :
    decode (encode (.float (pack negative 0))) = .ok (.float (pack negative 0)) := by
  cases negative <;> exact eq_ok_of_toOption (by decide +kernel)

/-- The two greatest floats are both read back as the greatest. -/
theorem decode_greatest (negative : Bool) {m : Nat}
    (greatest : m = infinityMagnitude - 2 ∨ m = infinityMagnitude - 1) :
    decode (encode (.float (pack negative m))) = .ok (.float (pack negative (infinityMagnitude - 1))) ∧
      ¬(pack negative m).Scales := by
  rcases greatest with rfl | rfl <;> cases negative <;>
    exact ⟨eq_ok_of_toOption (by decide +kernel), by decide +kernel⟩

/-- A text that is read as a double is decoded to the float. -/
theorem decode_float {x y : Binary64} (finite : x.isFinite = true)
    (read : Document.read (Text.encode x.toText) = .ok (.number (.double y))) :
    decode (encode (.float x)) = .ok (.float y) := by
  have written : encode (.float x) = Text.encode x.toText := by
    rw [encode, toDocument, if_pos finite, Document.write, Document.text, Number.text, if_pos finite]
  rw [written, decode, read]
  rfl

/-- A finite float is read back with its sign as a float that is at most three places away, and as
itself if its digits and their power of ten are doubles. -/
theorem decode_encode_float {x : Binary64} (finite : x.isFinite = true) :
    ∃ y : Binary64, decode (encode (.float x)) = .ok (.float y) ∧ y.isFinite = true ∧
      y.negative = x.negative ∧ y.magnitude ≤ x.magnitude + 3 ∧ x.magnitude ≤ y.magnitude + 3 ∧
      (x.Scales → y = x) := by
  have below := (isFinite_iff x).mp finite
  rcases Nat.eq_zero_or_pos x.magnitude with zero | positive
  · have same := decode_zero x.negative
    rw [← zero, pack_magnitude] at same
    exact ⟨x, same, finite, rfl, Nat.le_add_right _ _, Nat.le_add_right _ _, fun _ => rfl⟩
  by_cases greatest : x.magnitude = infinityMagnitude - 2 ∨ x.magnitude = infinityMagnitude - 1
  · obtain ⟨read, unscaled⟩ := decode_greatest x.negative greatest
    rw [pack_magnitude] at read unscaled
    have fits : infinityMagnitude - 1 < signPlace := by decide
    refine ⟨pack x.negative (infinityMagnitude - 1), read, ?_, negative_pack _ fits, ?_⟩
    · rw [isFinite_iff, magnitude_pack _ fits]
      decide
    · rw [magnitude_pack _ fits]
      exact ⟨by omega, by omega, fun scales => absurd scales unscaled⟩
  · obtain ⟨y, read, inside, sign, above, under⟩ := read_toText positive (by omega)
    have few := drift_le (Decimal.shortest x).written.1 (Decimal.shortest x).written.2
    refine ⟨y, decode_float finite read, inside, sign, by omega, by omega, fun scales => ?_⟩
    have exactly : drift (Decimal.shortest x).written.1 (Decimal.shortest x).written.2 = 0 := by
      rcases scales with zero | fits
      · exact absurd (of_decide_eq_true zero) positive.ne'
      · exact if_pos fits
    have same : y.magnitude = x.magnitude := by omega
    rw [← pack_magnitude y, sign, same, pack_magnitude]

/-- One and a quarter is read back as itself. -/
theorem quarter_read_back : (⟨0x3FF4000000000000⟩ : Binary64).isFinite = true ∧
    decode (encode (.float ⟨0x3FF4000000000000⟩)) = .ok (.float ⟨0x3FF4000000000000⟩) := by
  refine ⟨by decide, ?_⟩
  obtain ⟨y, read, -, -, -, -, exact⟩ := decode_encode_float (x := ⟨0x3FF4000000000000⟩) (by decide)
  rw [read, exact (.inr (by decide +kernel))]

/-- The double of the twenty-third power of a tenth is written as that power and read as its successor. -/
theorem tenth_power_moves : (⟨0x3B282DB34012B251⟩ : Binary64).isFinite = true ∧
    decode (encode (.float ⟨0x3B282DB34012B251⟩)) = .ok (.float ⟨0x3B282DB34012B252⟩) ∧
    (⟨0x3B282DB34012B252⟩ : Binary64) ≠ ⟨0x3B282DB34012B251⟩ :=
  ⟨by decide, eq_ok_of_toOption (by decide +kernel), by decide⟩

end Value

end BuildServer
