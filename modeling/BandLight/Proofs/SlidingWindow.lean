import BandLight.Proofs.SpectrumBounds
import Mathlib.Data.List.DropRight

/-! The window of a transform is the recent past. After any number of inputs it
holds the last samples of all that came in, behind the silence it started from,
and an input yields the magnitudes of that window whatever the spectrum they are
written over. -/
namespace BandLight

theorem validateBlockSize_supported (size : Nat) (supported : validateBlockSize size = .ok ()) :
    32 ≤ size ∧ Nat.pow 2 size.log2 = size := by
  unfold validateBlockSize at supported
  split at supported
  · next fits => exact ⟨fits.1, fits.2.2⟩
  · cases supported

theorem validateBlockSize_pos (size : Nat) (supported : validateBlockSize size = .ok ()) :
    0 < size := by
  have least := (validateBlockSize_supported size supported).1
  omega

namespace Transform

theorem length_splitAll (depth : Nat) (nodes : List Node) :
    (splitAll depth nodes).length = Nat.pow 2 depth * nodes.length := by
  induction depth generalizing nodes with
  | zero => simp [splitAll]
  | succ depth ih =>
    have double : Nat.pow 2 (depth + 1) = Nat.pow 2 depth * 2 := rfl
    simp only [splitAll, ih, double, List.length_append, List.length_reverse, List.length_map]
    rw [Nat.mul_assoc, Nat.two_mul]

theorem length_interleave {α : Type} (evens odds : List α) (same : evens.length = odds.length) :
    (interleave evens odds).length = 2 * evens.length := by
  unfold interleave
  induction evens generalizing odds with
  | nil => rfl
  | cons even evens ih =>
    cases odds with
    | nil => cases same
    | cons odd odds =>
      have rest := ih odds (by simpa using same)
      simp only [List.zip_cons_cons, List.flatMap_cons, List.length_append, List.length_cons,
        List.length_nil, rest]
      omega

theorem length_oddPowers (bound depth : Nat) (residue : List Int) :
    (oddPowers bound depth residue).length = Nat.pow 2 depth := by
  simp [oddPowers, length_splitAll]

theorem length_powers (bound depth : Nat) (samples : List Int) :
    (powers bound (depth + 1) samples).length = Nat.pow 2 depth := by
  induction depth generalizing samples with
  | zero => exact length_oddPowers bound 0 _
  | succ depth ih =>
    have double : Nat.pow 2 (depth + 1) = Nat.pow 2 depth * 2 := rfl
    have even := ih (List.zipWith (· + ·) (halves samples).1 (halves samples).2)
    have odd := length_oddPowers bound depth
      (List.zipWith (· - ·) (halves samples).1 (halves samples).2)
    have both := length_interleave _ _ (even.trans odd.symm)
    rw [even, Nat.mul_comm, ← double] at both
    exact both

theorem length_magnitudes (window : List Sample)
    (supported : validateBlockSize window.length = .ok ()) :
    (magnitudes window).length = window.length / 2 := by
  obtain ⟨least, power⟩ := validateBlockSize_supported _ supported
  obtain ⟨depth, size⟩ : ∃ depth, window.length.log2 = depth + 1 := by
    cases known : window.length.log2 with
    | zero =>
      rw [known] at power
      change 1 = _ at power
      omega
    | succ depth => exact ⟨depth, rfl⟩
  have double : window.length = Nat.pow 2 depth * 2 := by
    rw [size] at power
    exact power.symm
  rw [magnitudes, List.length_map, size, length_powers]
  omega

def spectrumOf (window : List Sample) : Spectrum := ⟨magnitudes window⟩

theorem spectrumOf_sound {window : List Sample} {size : Nat} (length : window.length = size)
    (supported : validateBlockSize size = .ok ()) : (spectrumOf window).Sound (size / 2) := by
  subst length
  exact ⟨length_magnitudes window supported, magnitudes_scaled window⟩

theorem zipWith_second : (old new : List UInt16) → new.length ≤ old.length →
    List.zipWith (fun _ bin => bin) old new = new
  | _, [], _ => by simp
  | _ :: old, bin :: new, fits => by simp [zipWith_second old new (by simpa using fits)]

/-- Bins that are written over a spectrum at hand, or over a silent one in its place. -/
theorem overwritten (target : Spectrum) (bins : List UInt16) (length : Nat)
    (fits : bins.length = length) :
    List.zipWith (fun _ bin => bin)
        (if target.length = length then target else Spectrum.zeroed length).bins bins
      ++ (if target.length = length then target else Spectrum.zeroed length).bins.drop bins.length =
      bins := by
  have ready : (if target.length = length then target else Spectrum.zeroed length).bins.length =
      length := by
    split
    · next same => exact same
    · exact List.length_replicate
  rw [zipWith_second _ _ (by omega), List.drop_of_length_le (by omega), List.append_nil]

/-- The transform with the samples that came in behind what it keeps. -/
def slid (t : Transform) (samples : List Sample) : Transform :=
  { t with window := t.window.drop (min samples.length t.blockSize) ++ samples.take t.blockSize }

section
variable {t : Transform} (fits : t.window.length = t.blockSize)
include fits

theorem length_window_slid (samples : List Sample) :
    (t.slid samples).window.length = t.blockSize := by
  rw [slid, List.length_append, List.length_drop, List.length_take]
  omega

theorem shifted_take (start : Nat) (inside : start ≤ t.blockSize) :
    ∃ window, shifted t.window start (t.blockSize - start) = .ok window ∧
      window.length = t.blockSize ∧ window.take (t.blockSize - start) = t.window.drop start := by
  have count : (t.window.drop start).length = t.blockSize - start := by
    rw [List.length_drop, fits]
  unfold shifted
  split
  · refine ⟨t.window.drop start ++ t.window.drop (t.window.drop start).length, ?_, ?_, ?_⟩
    · rw [Checked.slice_last (by omega)]
      rfl
    · rw [List.length_append, count, List.length_drop]
      omega
    · rw [← count, List.take_left]
  · next whole =>
    refine ⟨t.window, rfl, fits, ?_⟩
    rw [Nat.eq_zero_of_not_pos whole, List.take_zero, List.drop_of_length_le (by omega)]

theorem slide_eq (samples : List Sample) : t.slide samples = .ok (t.slid samples) := by
  obtain ⟨size, incoming⟩ : ∃ size, size = min samples.length t.blockSize := ⟨_, rfl⟩
  have arrived : samples.take size = samples.take t.blockSize := by
    rw [incoming, Nat.min_comm, List.take_eq_take_min (i := t.blockSize)]
  obtain ⟨window, moved, length, kept⟩ := shifted_take fits size (by omega)
  have room : (window.drop (t.blockSize - size)).length = (samples.take size).length := by
    rw [List.length_drop, List.length_take]
    omega
  rw [slide, ← incoming, Checked.sub_ok (by omega), Checked.ok_bind, moved, Checked.ok_bind,
    Checked.slice_last (by omega), Checked.ok_bind, Checked.slice_first (by omega), Checked.ok_bind,
    Checked.copyOver_ok room, Checked.ok_bind, kept, arrived, incoming]
  rfl

theorem analyzeInto_eq (supported : validateBlockSize t.blockSize = .ok ()) (samples : List Sample)
    (target : Spectrum) :
    t.analyzeInto samples target = .ok (spectrumOf (t.slid samples).window, t.slid samples) := by
  have bins : (magnitudes (t.slid samples).window).length = (t.slid samples).spectrumLength :=
    (spectrumOf_sound (length_window_slid fits samples) supported).length_eq
  rw [analyzeInto, slide_eq fits, Checked.ok_bind, ← bins, Checked.slice_first (Nat.le_refl _),
    List.take_length, Checked.ok_bind, overwritten _ _ _ rfl]
  rfl

end

/-- The last samples of a past that silence went before. -/
def recent (size : Nat) (past : List Sample) : List Sample :=
  (List.replicate size 0 ++ past).rtake size

theorem length_recent (size : Nat) (past : List Sample) : (recent size past).length = size := by
  simp only [recent, List.rtake, List.length_drop, List.length_append, List.length_replicate]
  omega

theorem recent_nil (size : Nat) : recent size [] = List.replicate size 0 := by
  simp [recent, List.rtake]

theorem recent_append (size : Nat) (past samples : List Sample) (fits : samples.length ≤ size) :
    recent size (past ++ samples) = (recent size past).drop samples.length ++ samples := by
  have inside : (List.replicate size (0 : Sample) ++ past).length - size + samples.length ≤
      (List.replicate size (0 : Sample) ++ past).length := by
    rw [List.length_append, List.length_replicate]
    omega
  simp only [recent, List.rtake, ← List.append_assoc, List.drop_drop]
  rw [← List.drop_append_of_le_length inside]
  simp only [List.length_append, List.length_replicate]
  congr 1
  omega

theorem window_slid (t : Transform) (past samples : List Sample)
    (window : t.window = recent t.blockSize past) :
    (t.slid samples).window = recent t.blockSize (past ++ samples.take t.blockSize) := by
  rw [recent_append _ _ _ (List.length_take_le _ _), ← window, slid, List.length_take, Nat.min_comm]

end Transform

end BandLight
