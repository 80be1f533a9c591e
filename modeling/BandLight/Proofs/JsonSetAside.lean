import BandLight.Json.Buffer
import BandLight.Proofs.JsonText
import Mathlib.Algebra.Order.Ring.Nat

/-! A value as a writer puts it out can be set aside. Its strings are text and its numbers
are those of 64-bit integers and of doubles; such a number stays finite although both its
significand and its power of ten are rounded before they are multiplied. -/
namespace BandLight.Json

def greatestDouble : Nat := Nat.pow 2 1024 - Nat.pow 2 971

def greatestPower : Nat := Nat.pow 10 308

/-- The number without the part that a negative exponent takes off. -/
def Decimal.magnitude (d : Decimal) : Nat := d.significand * Nat.pow 10 d.exponent.toNat

/-- A double is written with seventeen digits at most, and an integer of 64 bits is far
below `10 ^ 308`. -/
def EmittedNumber (text : List Char) : Prop :=
  isNumber text = true ∧
    ((decimal text).magnitude < greatestPower ∨
      ((decimal text).significand < Nat.pow 10 17 ∧ (decimal text).magnitude ≤ greatestDouble))

mutual

/-- A value as a writer puts it out. -/
def Emitted : Json → Prop
  | null | bool _ => True
  | number text => EmittedNumber text
  | string text => text.isSome = true
  | array items => EmittedItems items
  | object members => EmittedMembers members

def EmittedItems : List Json → Prop
  | [] => True
  | item :: items => item.Emitted ∧ EmittedItems items

def EmittedMembers : List (Literal × Json) → Prop
  | [] => True
  | (key, value) :: members => key.isSome = true ∧ value.Emitted ∧ EmittedMembers members

end

mutual

def depth : Json → Nat
  | array items => depthItems items + 1
  | object members => depthMembers members + 1
  | null | bool _ | number _ | string _ => 0

def depthItems : List Json → Nat
  | [] => 0
  | item :: items => max item.depth (depthItems items)

def depthMembers : List (Literal × Json) → Nat
  | [] => 0
  | (_, value) :: members => max value.depth (depthMembers members)

end

theorem appendDigits_fits (text : List Char) (n : Nat) (fits : n < UInt64.size) :
    (appendDigits n text).1 < UInt64.size := by
  induction text generalizing n with
  | nil => exact fits
  | cons c text ih =>
    simp only [appendDigits]
    split
    · next small => exact ih _ small
    · exact fits

theorem significand_fits (text : List Char) : (decimal text).significand < UInt64.size :=
  appendDigits_fits _ _ (appendDigits_fits _ 0 (by decide))

/-- The last place of a number with 53 significant bits. -/
def lastPlace (n : Nat) : Nat := Nat.pow 2 (n.log2 - 52)

theorem nearestDouble_eq (n : Nat) : nearestDouble n =
    if lastPlace n < 2 * (n % lastPlace n) ∨
        (lastPlace n = 2 * (n % lastPlace n) ∧ n / lastPlace n % 2 = 1) then
      (n / lastPlace n + 1) * lastPlace n
    else n / lastPlace n * lastPlace n := rfl

theorem nearestDouble_least (n : Nat) : n / lastPlace n * lastPlace n ≤ nearestDouble n := by
  rw [nearestDouble_eq]
  split
  · exact Nat.mul_le_mul_right _ (Nat.le_succ _)
  · exact le_refl _

theorem nearestDouble_most (n : Nat) :
    nearestDouble n ≤ (n / lastPlace n + 1) * lastPlace n := by
  rw [nearestDouble_eq]
  split
  · exact le_refl _
  · exact Nat.mul_le_mul_right _ (Nat.le_succ _)

theorem nearestDouble_below (n bits : Nat) (below : n < Nat.pow 2 bits) :
    nearestDouble n ≤ Nat.pow 2 bits := by
  have place : n.log2 - 52 ≤ bits := by
    by_cases zero : n = 0
    · subst zero
      exact Nat.zero_le _
    · exact (Nat.sub_le _ _).trans ((Nat.log2_lt zero).mpr below).le
  have whole : Nat.pow 2 (bits - (n.log2 - 52)) * lastPlace n = Nat.pow 2 bits :=
    Nat.pow_sub_mul_pow 2 place
  have count : n / lastPlace n < Nat.pow 2 (bits - (n.log2 - 52)) := by
    apply Nat.div_lt_of_lt_mul
    rwa [Nat.mul_comm, whole]
  calc nearestDouble n
      ≤ (n / lastPlace n + 1) * lastPlace n := nearestDouble_most n
    _ ≤ Nat.pow 2 (bits - (n.log2 - 52)) * lastPlace n := Nat.mul_le_mul_right _ count
    _ = Nat.pow 2 bits := whole

theorem nearestDouble_above (n : Nat) (large : 52 ≤ n.log2) :
    Nat.pow 2 n.log2 ≤ nearestDouble n := by
  have positive : n ≠ 0 := by
    rintro rfl
    exact absurd large (by decide)
  have whole : Nat.pow 2 52 * lastPlace n = Nat.pow 2 n.log2 := by
    rw [Nat.mul_comm]
    exact Nat.pow_sub_mul_pow 2 large
  have count : Nat.pow 2 52 ≤ n / lastPlace n := by
    apply (Nat.le_div_iff_mul_le (Nat.two_pow_pos _)).mpr
    exact whole.trans_le (Nat.log2_self_le positive)
  calc Nat.pow 2 n.log2
      = Nat.pow 2 52 * lastPlace n := whole.symm
    _ ≤ n / lastPlace n * lastPlace n := Nat.mul_le_mul_right _ count
    _ ≤ nearestDouble n := nearestDouble_least n

theorem nearestDouble_mono {n m : Nat} (le : n ≤ m) : nearestDouble n ≤ nearestDouble m := by
  have bits : n.log2 ≤ m.log2 := by
    by_cases zero : n = 0
    · subst zero
      exact Nat.zero_le _
    · exact (Nat.le_log2 (by omega)).mpr ((Nat.log2_self_le zero).trans le)
  rcases Nat.lt_or_eq_of_le (Nat.sub_le_sub_right bits 52) with coarser | same
  · -- The power of two that only the greater number reaches is between the two.
    have below : n < Nat.pow 2 m.log2 :=
      Nat.lt_log2_self.trans_le (Nat.pow_le_pow_right (by decide) (by omega))
    exact (nearestDouble_below n m.log2 below).trans (nearestDouble_above m (by omega))
  · have place : lastPlace n = lastPlace m := congrArg (Nat.pow 2) same
    rcases Nat.lt_or_eq_of_le (Nat.div_le_div_right (c := lastPlace m) le) with fewer | equal
    · calc nearestDouble n
          ≤ (n / lastPlace m + 1) * lastPlace m := place ▸ nearestDouble_most n
        _ ≤ m / lastPlace m * lastPlace m := Nat.mul_le_mul_right _ fewer
        _ ≤ nearestDouble m := nearestDouble_least m
    · have remainder : n % lastPlace m ≤ m % lastPlace m := by
        have first := Nat.div_add_mod n (lastPlace m)
        have second := Nat.div_add_mod m (lastPlace m)
        rw [equal] at first
        omega
      rw [nearestDouble_eq n, nearestDouble_eq m, place, equal]
      split
      · rw [if_pos (by omega)]
      · split
        · exact Nat.mul_le_mul_right _ (Nat.le_succ _)
        · exact le_refl _

/-- The greatest significand that a written number has with a power of ten. -/
def greatestSignificand (power : Nat) : Nat :=
  max (min (UInt64.size - 1) (greatestPower / Nat.pow 10 power))
    (min (Nat.pow 10 17 - 1) (greatestDouble / Nat.pow 10 power))

theorem greatestSignificand_finite : ∀ power < 309,
    nearestDouble (greatestSignificand power) * nearestDouble (Nat.pow 10 power) <
      infinityEdge := by
  decide +kernel

theorem significand_greatest (text : List Char) (emitted : EmittedNumber text) :
    (decimal text).significand ≤ greatestSignificand (decimal text).exponent.toNat := by
  have divided (bound : Nat) (within : (decimal text).magnitude ≤ bound) :
      (decimal text).significand ≤ bound / Nat.pow 10 (decimal text).exponent.toNat :=
    (Nat.le_div_iff_mul_le (Nat.pow_pos (by decide))).mpr within
  rcases emitted.2 with small | ⟨digits, within⟩
  · apply le_max_of_le_left
    exact le_min (Nat.le_sub_one_of_lt (significand_fits text)) (divided _ small.le)
  · apply le_max_of_le_right
    exact le_min (Nat.le_sub_one_of_lt digits) (divided _ within)

theorem greatest_digits : ∃ digits ≤ 309,
    greatestPower < Nat.pow 10 digits ∧ greatestDouble < Nat.pow 10 digits :=
  ⟨309, by decide +kernel⟩

theorem exponent_below (d : Decimal) (limit : Nat) (some : d.significand ≠ 0)
    (below : d.magnitude < Nat.pow 10 limit) : d.exponent.toNat < limit := by
  have power : Nat.pow 10 d.exponent.toNat ≤ d.magnitude :=
    Nat.le_mul_of_pos_left _ (Nat.pos_of_ne_zero some)
  exact (Nat.pow_lt_pow_iff_right (by decide)).mp (Nat.lt_of_le_of_lt power below)

theorem exponent_emitted (text : List Char) (emitted : EmittedNumber text)
    (some : (decimal text).significand ≠ 0) : (decimal text).exponent.toNat < 309 := by
  obtain ⟨digits, most, power, double⟩ := greatest_digits
  refine Nat.lt_of_lt_of_le (exponent_below _ digits some ?_) most
  rcases emitted.2 with small | ⟨-, within⟩
  · exact small.trans power
  · exact within.trans_lt double

theorem isFinite_emitted (text : List Char) (emitted : EmittedNumber text) :
    isFinite text = true := by
  rw [isFinite]
  split
  · rfl
  · next whole =>
    obtain ⟨nonzero, positive⟩ := not_or.mp whole
    have power := exponent_emitted text emitted nonzero
    have same : (decimal text).exponent.natAbs = (decimal text).exponent.toNat := by omega
    rw [if_neg (by unfold maxPower; omega), same, decide_eq_true_eq]
    exact (Nat.mul_le_mul_right _ (nearestDouble_mono (significand_greatest text emitted))).trans_lt
      (greatestSignificand_finite _ power)

mutual

theorem fits_emitted : ∀ (value : Json) (limit : Nat), value.Emitted → value.depth ≤ limit →
    fits limit value = true
  | .null, _, _, _ | .bool _, _, _, _ => by simp [fits]
  | .number text, _, emitted, _ => by simp [fits, isFinite_emitted text emitted]
  | .string _, _, emitted, _ => by simpa [fits, Emitted] using emitted
  | .array _, 0, _, deep | .object _, 0, _, deep => by simp [depth] at deep
  | .array items, limit + 1, emitted, deep =>
      fitsItems_emitted items limit emitted (Nat.le_of_succ_le_succ deep)
  | .object members, limit + 1, emitted, deep =>
      fitsMembers_emitted members limit emitted (Nat.le_of_succ_le_succ deep)

theorem fitsItems_emitted : ∀ (items : List Json) (limit : Nat), EmittedItems items →
    depthItems items ≤ limit → fitsItems limit items = true
  | [], _, _, _ => rfl
  | item :: items, limit, ⟨first, others⟩, deep => by
    obtain ⟨inner, rest⟩ := max_le_iff.mp deep
    simp [fitsItems, fits_emitted item limit first inner, fitsItems_emitted items limit others rest]

theorem fitsMembers_emitted : ∀ (members : List (Literal × Json)) (limit : Nat),
    EmittedMembers members → depthMembers members ≤ limit → fitsMembers limit members = true
  | [], _, _, _ => rfl
  | (key, value) :: members, limit, ⟨named, first, others⟩, deep => by
    obtain ⟨inner, rest⟩ := max_le_iff.mp deep
    simp [fitsMembers, named, fits_emitted value limit first inner,
      fitsMembers_emitted members limit others rest]

end

mutual

theorem wellFormed_emitted : ∀ value : Json, value.Emitted → value.WellFormed
  | .null, _ | .bool _, _ | .string _, _ => trivial
  | .number _, emitted => emitted.1
  | .array items, emitted => wellFormedItems_emitted items emitted
  | .object members, emitted => wellFormedMembers_emitted members emitted

theorem wellFormedItems_emitted : ∀ items : List Json, EmittedItems items → WellFormedItems items
  | [], _ => trivial
  | item :: items, ⟨first, others⟩ =>
      ⟨wellFormed_emitted item first, wellFormedItems_emitted items others⟩

theorem wellFormedMembers_emitted : ∀ members : List (Literal × Json), EmittedMembers members →
    WellFormedMembers members
  | [], _ => trivial
  | (_, value) :: members, ⟨_, first, others⟩ =>
      ⟨wellFormed_emitted value first, wellFormedMembers_emitted members others⟩

end

end BandLight.Json
