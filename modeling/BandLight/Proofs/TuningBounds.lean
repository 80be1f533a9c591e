import BandLight.Proofs.TickTotality

/-! How far threshold and divisor go. Both divide by a sum of a base and a part of the total
energy, so neither the threshold nor a level exceeds its knee, and the threshold is below it
but for one total: where a knee of one meets the greatest word, the sum saturates and the
quotient is one. -/
namespace BandLight

theorem saturatingAdd32_mono (base : Nat) {extra more : Nat} (le : extra ≤ more) :
    saturatingAdd32 base extra ≤ saturatingAdd32 base more := by
  unfold saturatingAdd32
  omega

/-- A total divided by more than its part of a knee is below the knee. -/
theorem div_saturating_lt (base knee total : Nat) (based : base ≠ 0) (kneed : knee ≠ 0)
    (word : total ≤ 4294967295) (inside : ¬ (knee = 1 ∧ total = 4294967295)) :
    total / saturatingAdd32 base (total / knee) < knee := by
  by_cases saturates : base + total / knee ≤ 4294967295
  · have least : total / knee + 1 ≤ saturatingAdd32 base (total / knee) := by
      unfold saturatingAdd32
      omega
    refine Nat.div_lt_of_lt_mul ?_
    calc total < knee * (total / knee + 1) := Nat.lt_mul_div_succ total (by omega)
      _ ≤ knee * saturatingAdd32 base (total / knee) := Nat.mul_le_mul_left knee least
      _ = saturatingAdd32 base (total / knee) * knee := Nat.mul_comm _ _
  · have whole : saturatingAdd32 base (total / knee) = 4294967295 := by
      unfold saturatingAdd32
      omega
    rw [whole]
    rcases Nat.lt_or_eq_of_le word with below | rfl
    · rw [Nat.div_eq_of_lt below]
      omega
    · rw [Nat.div_self (by decide)]
      omega

theorem div_saturating_corner (base : Nat) :
    4294967295 / saturatingAdd32 base (4294967295 / 1) = 1 := by
  have whole : saturatingAdd32 base (4294967295 / 1) = 4294967295 := by
    unfold saturatingAdd32
    omega
  rw [whole]

theorem div_saturating_le (base knee total : Nat) (based : base ≠ 0) (kneed : knee ≠ 0)
    (word : total ≤ 4294967295) : total / saturatingAdd32 base (total / knee) ≤ knee := by
  by_cases corner : knee = 1 ∧ total = 4294967295
  · obtain ⟨rfl, rfl⟩ := corner
    exact (div_saturating_corner base).le
  · exact (div_saturating_lt base knee total based kneed word corner).le

namespace Tuning

/-- The bounds on what a tuning makes of a total energy. -/
structure Bounded (t : Tuning) (total threshold divisor : Nat) : Prop where
  share : threshold ≤ total / t.thresholdBase.toNat
  below : ¬ (t.thresholdKnee = 1 ∧ total = 4294967295) → threshold < t.thresholdKnee.toNat
  corner : t.thresholdKnee = 1 → total = 4294967295 → threshold = 1
  least : t.divisorBase.toNat ≤ divisor
  growing : ∀ smaller ≤ total, ∀ other, t.divisor smaller = .ok other → other ≤ divisor
  level : ∀ sum ≤ total, sum / divisor ≤ t.divisorKnee.toNat

/-- Where few parts make up the total, the greatest of them is above the threshold. -/
theorem thresholdAt_lt (t : Tuning) {total parts greatest : Nat}
    (few : parts < t.thresholdBase.toNat) (some : 0 < greatest) (made : total ≤ parts * greatest) :
    t.thresholdAt total < greatest := by
  refine Nat.div_lt_of_lt_mul ?_
  calc total ≤ parts * greatest := made
    _ < t.thresholdBase.toNat * greatest := Nat.mul_lt_mul_of_pos_right few some
    _ ≤ saturatingAdd32 t.thresholdBase.toNat (total / t.thresholdKnee.toNat) * greatest :=
      Nat.mul_le_mul_right greatest (t.thresholdBase_le _)

section
variable {t : Tuning} (valid : t.Valid)
include valid

theorem thresholdAt_le_knee {total : Nat} (word : total ≤ 4294967295) :
    t.thresholdAt total ≤ t.thresholdKnee.toNat :=
  div_saturating_le _ _ total valid.nonzero.1 valid.nonzero.2.1 word

theorem level_le_knee {total sum : Nat} (word : total ≤ 4294967295) (part : sum ≤ total) :
    sum / t.divisorAt total ≤ t.divisorKnee.toNat :=
  (Nat.div_le_div_right part).trans
    (div_saturating_le _ _ total valid.nonzero.2.2.1 valid.nonzero.2.2.2 word)

theorem bounded {total : Nat} (word : total ≤ 4294967295) :
    t.Bounded total (t.thresholdAt total) (t.divisorAt total) := by
  obtain ⟨base, knee, -, -⟩ := valid.nonzero
  refine ⟨?_, ?_, ?_, ?_, ?_, fun sum part => level_le_knee valid word part⟩
  · exact Nat.div_le_div_left (t.thresholdBase_le _) (Nat.pos_of_ne_zero base)
  · intro inside
    refine div_saturating_lt _ _ total base knee word fun corner => inside ⟨?_, corner.2⟩
    exact UInt32.toNat_inj.mp corner.1
  · rintro one rfl
    rw [thresholdAt, one]
    exact div_saturating_corner _
  · exact t.divisorBase_le total
  · intro smaller le other computed
    rw [divisor_eq valid] at computed
    cases computed
    exact saturatingAdd32_mono _ (Nat.div_le_div_right le)

end

end Tuning

end BandLight
