import BandLight.Proofs.FourierBins
import BandLight.Proofs.TransformRuns

/-! A transform with working buffers. The window is loaded into a data buffer, a Fourier transform
works on it in place with the help of scratch space, and the bins are read off. Neither buffer is
ever cleared. An analysis loads all of the data anew, so that what the buffers held cannot be
heard; and where the Fourier transform is exact, the answers are those of a transform without
buffers. -/
namespace BandLight

open Real

structure Processor (α : Type) where
  load : Sample → α
  process : List α → List α → List α × List α
  quantize : Nat → α → UInt16
  scratchLength : Nat → Nat
  length_data : ∀ data scratch, (process data scratch).1.length = data.length
  length_scratch : ∀ data scratch, (process data scratch).2.length = scratch.length
  /-- Scratch space is written before it is read. -/
  unread : ∀ data first second, first.length = second.length →
    (process data first).1 = (process data second).1

structure Engine (α : Type) where
  transform : Transform
  data : List α
  scratch : List α

variable {α : Type} (p : Processor α)

namespace Processor

def blank (size : Nat) : List α := List.replicate size (p.load 0)

/-- The spectrum of a window, from scratch space that nothing was written to. -/
def spectrumOf (window : List Sample) : Spectrum :=
  ⟨((p.process (window.map p.load) (p.blank (p.scratchLength window.length))).1.take
    (window.length / 2)).map (p.quantize window.length)⟩

/-- The Fourier transform and the reading of its values are exact. -/
def Computes : Prop := ∀ window : List Sample, validateBlockSize window.length = .ok () →
  p.spectrumOf window = Transform.spectrumOf window

end Processor

namespace Engine

def configure (size : Nat) : Except SetupError (Engine α) := do
  let transform ← Transform.configure size
  return { transform, data := p.blank size, scratch := p.blank (p.scratchLength size) }

def analyzeInto (e : Engine α) (samples : List Sample) (target : Spectrum) :
    Checked (Spectrum × Engine α) := do
  let transform ← e.transform.slide samples
  let loaded := List.zipWith (fun _ sample => p.load sample) e.data transform.window
    ++ e.data.drop transform.window.length
  let (data, scratch) := p.process loaded e.scratch
  let target :=
    if target.length = transform.spectrumLength then target else .zeroed transform.spectrumLength
  let half ← Checked.slice data 0 transform.spectrumLength
  let bins := half.map (p.quantize transform.blockSize)
  return (⟨List.zipWith (fun _ bin => bin) target.bins bins ++ target.bins.drop bins.length⟩,
    { transform, data, scratch })

/-- The window is forgotten, the buffers are left as they are. -/
def reset (e : Engine α) : Engine α := { e with transform := e.transform.reset }

def perform (e : Engine α) : Transform.Operation → Checked (Option Spectrum × Engine α)
  | .analyze samples => do
      let (spectrum, next) ← e.analyzeInto p samples (.zeroed e.transform.spectrumLength)
      return (some spectrum, next)
  | .analyzeInto samples target => do
      let (spectrum, next) ← e.analyzeInto p samples target
      return (some spectrum, next)
  | .reset => .ok (none, e.reset)

def run (e : Engine α) (operations : List Transform.Operation) :
    Checked (List (Option Spectrum) × Engine α) :=
  Checked.trace (perform p) e operations

def heard (e : Engine α) (samples : List Sample) : Engine α :=
  let transform := e.transform.slid samples
  let (data, scratch) := p.process (transform.window.map p.load) e.scratch
  { transform, data, scratch }

def next (e : Engine α) (operation : Transform.Operation) : Engine α :=
  operation.input?.elim e.reset (e.heard p)

structure Sound (e : Engine α) : Prop where
  supported : validateBlockSize e.transform.blockSize = .ok ()
  window : e.transform.window.length = e.transform.blockSize
  data : e.data.length = e.transform.blockSize
  scratch : e.scratch.length = p.scratchLength e.transform.blockSize

section
variable {p} {e : Engine α}

theorem loaded_eq (data : List α) (window : List Sample) (same : data.length = window.length) :
    List.zipWith (fun _ sample => p.load sample) data window ++ data.drop window.length =
      window.map p.load := by
  rw [← same, List.drop_length, List.append_nil]
  refine List.ext_getElem (by simp [same]) fun i _ _ => ?_
  rw [List.getElem_zipWith, List.getElem_map]

theorem Sound.slid (sound : e.Sound p) (samples : List Sample) :
    (e.transform.slid samples).window.length = e.transform.blockSize :=
  Transform.length_window_slid sound.window samples

theorem Sound.heard (sound : e.Sound p) (samples : List Sample) : (e.heard p samples).Sound p := by
  refine ⟨sound.supported, sound.slid samples, ?_, ?_⟩
  · change (p.process _ _).1.length = e.transform.blockSize
    rw [p.length_data, List.length_map, sound.slid]
  · exact (p.length_scratch _ _).trans sound.scratch

theorem Sound.half (sound : e.Sound p) (samples : List Sample) :
    ((e.heard p samples).data.take (e.transform.blockSize / 2)).map
        (p.quantize e.transform.blockSize) =
      (p.spectrumOf (e.transform.slid samples).window).bins := by
  have data := p.unread ((e.transform.slid samples).window.map p.load) e.scratch
    (p.blank (p.scratchLength e.transform.blockSize))
    (by rw [sound.scratch, Processor.blank, List.length_replicate])
  rw [Processor.spectrumOf, sound.slid, ← data]
  rfl

theorem Sound.analyzeInto_eq (sound : e.Sound p) (samples : List Sample) (target : Spectrum) :
    e.analyzeInto p samples target =
      .ok (p.spectrumOf (e.transform.slid samples).window, e.heard p samples) := by
  have later := sound.heard samples
  have loaded := loaded_eq (p := p) e.data (e.transform.slid samples).window
    (sound.data.trans (sound.slid samples).symm)
  have room : e.transform.blockSize / 2 ≤ (e.heard p samples).data.length := by
    rw [later.data]
    exact Nat.div_le_self _ _
  have half : Checked.slice (e.heard p samples).data 0 (e.transform.slid samples).spectrumLength =
      .ok ((e.heard p samples).data.take (e.transform.blockSize / 2)) := Checked.slice_first room
  have count : (((e.heard p samples).data.take (e.transform.blockSize / 2)).map
      (p.quantize e.transform.blockSize)).length = (e.transform.slid samples).spectrumLength := by
    rw [List.length_map, List.length_take, Nat.min_eq_left room]
    rfl
  rw [analyzeInto, Transform.slide_eq sound.window, Checked.ok_bind, loaded]
  change (do
    let half ← Checked.slice (e.heard p samples).data 0 (e.transform.slid samples).spectrumLength
    return (_, e.heard p samples)) = _
  rw [half, Checked.ok_bind]
  have written := Transform.overwritten target _ _ count
  exact congrArg (fun bins => Except.ok (Spectrum.mk bins, e.heard p samples))
    (written.trans (sound.half samples))

theorem Sound.perform_eq (sound : e.Sound p) (operation : Transform.Operation) :
    e.perform p operation =
      .ok (operation.input?.map fun samples => p.spectrumOf (e.transform.slid samples).window,
        e.next p operation) := by
  cases operation with
  | analyze samples =>
    rw [perform, sound.analyzeInto_eq]
    rfl
  | analyzeInto samples target =>
    rw [perform, sound.analyzeInto_eq]
    rfl
  | reset => rfl

theorem Sound.next (sound : e.Sound p) (operation : Transform.Operation) :
    (e.next p operation).Sound p := by
  cases operation with
  | analyze samples | analyzeInto samples _ => exact sound.heard samples
  | reset =>
    exact ⟨sound.supported, (List.length_map _).trans sound.window, sound.data, sound.scratch⟩

theorem next_transform (e : Engine α) (operation : Transform.Operation) :
    (e.next p operation).transform =
      operation.input?.elim e.transform.reset e.transform.slid := by
  cases operation <;> rfl

theorem configure_sound {size : Nat} (configured : configure p size = .ok e) :
    e.Sound p ∧ Transform.configure size = .ok e.transform := by
  unfold configure at configured
  cases made : Transform.configure size with
  | error refusal =>
    rw [made] at configured
    cases configured
  | ok transform =>
    rw [made] at configured
    cases configured
    obtain ⟨supported, rfl⟩ := Transform.configure_recalling made
    exact ⟨⟨supported, Transform.length_recent _ _, List.length_replicate, List.length_replicate⟩, rfl⟩

theorem run_sound (sound : e.Sound p) {operations : List Transform.Operation}
    {answers : List (Option Spectrum)} {last : Engine α}
    (ran : e.run p operations = .ok (answers, last)) :
    last.Sound p ∧ last.transform.blockSize = e.transform.blockSize := by
  refine Checked.trace_induction (perform p)
    (fun _ _ f => f.Sound p ∧ f.transform.blockSize = e.transform.blockSize) e ⟨sound, rfl⟩ ?_
    operations answers last ran
  rintro - - f operation answer g - ⟨sound, size⟩ performed
  rw [sound.perform_eq operation] at performed
  cases performed
  refine ⟨sound.next operation, Eq.trans ?_ size⟩
  rw [next_transform]
  cases operation <;> rfl

theorem run_alike {f : Engine α} (sound : e.Sound p) (also : f.Sound p)
    (same : e.transform = f.transform) (operations : List Transform.Operation) :
    ∃ answers last final, e.run p operations = .ok (answers, last) ∧
      f.run p operations = .ok (answers, final) ∧ last.transform = final.transform := by
  induction operations generalizing e f with
  | nil => exact ⟨[], e, f, rfl, rfl, same⟩
  | cons operation operations ih =>
    have first := sound.perform_eq operation
    have second := also.perform_eq operation
    rw [same] at first
    obtain ⟨answers, last, final, rest, others, alike⟩ := ih (sound.next operation)
      (also.next operation) (by rw [next_transform, next_transform, same])
    let answer := operation.input?.map fun samples => p.spectrumOf (f.transform.slid samples).window
    refine ⟨answer :: answers, last, final, ?_, ?_, alike⟩
    · rw [run, Checked.trace_cons_eq (perform p) _ _ _ _ _ first]
      exact congrArg (Except.map _) rest
    · rw [run, Checked.trace_cons_eq (perform p) _ _ _ _ _ second]
      exact congrArg (Except.map _) others

/-- With an exact processor the buffers make no difference at all. -/
theorem run_eq_transform (computes : p.Computes) (sound : e.Sound p)
    (operations : List Transform.Operation) :
    ∃ answers last, e.run p operations = .ok (answers, last) ∧
      e.transform.run operations = .ok (answers, last.transform) := by
  induction operations generalizing e with
  | nil => exact ⟨[], e, rfl, rfl⟩
  | cons operation operations ih =>
    have own := sound.perform_eq operation
    have plain : e.transform.perform operation =
        .ok (operation.input?.map fun samples => p.spectrumOf (e.transform.slid samples).window,
          (e.next p operation).transform) := by
      rw [Transform.perform_eq sound.window sound.supported, next_transform]
      refine congrArg (fun answer => Except.ok (answer, _)) (Option.map_congr fun samples _ => ?_)
      exact (computes _ (by rw [sound.slid]; exact sound.supported)).symm
    obtain ⟨answers, last, rest, others⟩ := ih (sound.next operation)
    let answer := operation.input?.map fun samples => p.spectrumOf (e.transform.slid samples).window
    refine ⟨answer :: answers, last, ?_, ?_⟩
    · rw [run, Checked.trace_cons_eq (perform p) _ _ _ _ _ own]
      exact congrArg (Except.map _) rest
    · rw [Transform.run, Checked.trace_cons_eq Transform.perform _ _ _ _ _ plain]
      exact congrArg (Except.map _) others

end

end Engine

namespace Processor

/-- The discrete Fourier transform itself. It leaves its input behind in the scratch space. -/
noncomputable def exact : Processor ℂ where
  load sample := sample.toInt
  process data scratch :=
    ((List.range data.length).map fun k : Nat =>
        ∑ n : Fin data.length,
          data.get n * Complex.exp (-(2 * k * n : Nat) / data.length * π * Complex.I),
      List.zipWith (fun _ value => value) scratch data ++ scratch.drop data.length)
  quantize size value := UInt16.ofNat (min (round (Transform.single ‖value‖ / size)).toNat 32767)
  scratchLength size := size
  length_data data scratch := by rw [List.length_map, List.length_range]
  length_scratch data scratch := by
    rw [List.length_append, List.length_zipWith, List.length_drop]
    omega
  unread data first second same := rfl

theorem exact_computes : exact.Computes := by
  intro window supported
  have bin (k : Nat) : ∑ n : Fin (window.map exact.load).length, (window.map exact.load).get n
      * Complex.exp (-(2 * k * n : Nat) / (window.map exact.load).length * π * Complex.I) =
      Transform.fourier window k := by
    refine Fintype.sum_equiv (finCongr (List.length_map _)) _ _ fun n => ?_
    simp only [List.get_eq_getElem, List.getElem_map, List.length_map, finCongr_apply, Fin.val_cast]
    rfl
  have values (scratch : List ℂ) : (exact.process (window.map exact.load) scratch).1 =
      (List.range window.length).map (Transform.fourier window) :=
    (List.map_congr_left fun k _ => bin k).trans
      (congrArg (fun size => (List.range size).map (Transform.fourier window)) (List.length_map _))
  have half : min (window.length / 2) window.length = window.length / 2 :=
    Nat.min_eq_left (Nat.div_le_self _ _)
  rw [spectrumOf, values, ← List.map_take, List.take_range, half, List.map_map]
  exact congrArg Spectrum.mk (Transform.magnitudes_eq window supported).symm

end Processor

end BandLight
