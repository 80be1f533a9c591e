import BandLight.Proofs.SlidingWindow

/-! Runs of a transform. Inputs of any length and resets may come in any order, with any
spectrum to write over. A transform is known from the samples that count since the last reset,
the first of each input up to the block size: its window holds the last of them, and an input
yields the magnitudes of that window. -/
namespace BandLight.Transform

inductive Operation
  | analyze (samples : List Sample)
  /-- The spectrum is written over one at hand. -/
  | analyzeInto (samples : List Sample) (target : Spectrum)
  | reset
  deriving DecidableEq, Repr, Inhabited

def perform (t : Transform) : Operation → Checked (Option Spectrum × Transform)
  | .analyze samples => do
      let (spectrum, next) ← t.analyze samples
      return (some spectrum, next)
  | .analyzeInto samples target => do
      let (spectrum, next) ← t.analyzeInto samples target
      return (some spectrum, next)
  | .reset => .ok (none, t.reset)

def run (t : Transform) (operations : List Operation) :
    Checked (List (Option Spectrum) × Transform) :=
  Checked.trace perform t operations

def Operation.input? : Operation → Option (List Sample)
  | analyze samples | analyzeInto samples _ => some samples
  | reset => none

/-- The past grows by the first samples of an input, and a reset forgets it. -/
def hear (size : Nat) (past : List Sample) (operation : Operation) : List Sample :=
  match operation.input? with
  | some samples => past ++ samples.take size
  | none => []

/-- What has come in since the last reset, as far as it counts. -/
def heard (size : Nat) (operations : List Operation) : List Sample :=
  operations.foldl (hear size) []

def answers (size : Nat) : List Sample → List Operation → List (Option Spectrum)
  | _, [] => []
  | past, operation :: operations =>
      (operation.input?.map fun _ => spectrumOf (recent size (hear size past operation))) ::
        answers size (hear size past operation) operations

def recalling (size : Nat) (past : List Sample) : Transform := ⟨size, recent size past⟩

structure RecentPast (size : Nat) (t : Transform) (operations : List Operation)
    (answers : List (Option Spectrum)) (last : Transform) : Prop where
  /-- A call is answered by the spectrum of the most recent samples, its own included. -/
  call : ∀ before operation after, operations = before ++ operation :: after →
    answers[before.length]? = some (operation.input?.map fun _ =>
      spectrumOf (recent size (heard size (before ++ [operation]))))
  bins : ∀ answer ∈ answers, ∀ spectrum ∈ answer, spectrum.length = size / 2
  long : ∀ samples, last.analyze samples = last.analyze (samples.take size)
  target : ∀ samples target, last.analyzeInto samples target = last.analyze samples
  /-- Inputs that make up a block end as the block does. -/
  pieces : ∀ cut : List Operation, cut ≠ [] → (∀ piece ∈ cut, piece.input?.isSome) →
    (cut.filterMap Operation.input?).flatten.length ≤ size →
    ∃ spectrum next earlier,
      last.analyze (cut.filterMap Operation.input?).flatten = .ok (spectrum, next) ∧
        last.run cut = .ok (earlier ++ [some spectrum], next)
  /-- What lies further back than the last samples makes no difference. -/
  older : ∀ others first second shared, heard size operations = first ++ shared →
    heard size others = second ++ shared → size ≤ shared.length →
    ∃ answers, t.run others = .ok (answers, last)

theorem perform_eq {t : Transform} (fits : t.window.length = t.blockSize)
    (supported : validateBlockSize t.blockSize = .ok ()) (operation : Operation) :
    t.perform operation = .ok (operation.input?.map fun samples => spectrumOf (t.slid samples).window,
      operation.input?.elim t.reset t.slid) := by
  cases operation with
  | analyze samples =>
    rw [perform, analyze, analyzeInto_eq fits supported]
    rfl
  | analyzeInto samples target =>
    rw [perform, analyzeInto_eq fits supported]
    rfl
  | reset => rfl

section
variable {size : Nat} (past samples : List Sample)

theorem slid_recalling : (recalling size past).slid samples =
    recalling size (past ++ samples.take size) :=
  congrArg (Transform.mk size) (window_slid (recalling size past) past samples rfl)

theorem reset_recalling : (recalling size past).reset = recalling size [] := by
  rw [recalling, recalling, recent_nil, reset, List.map_const', length_recent]

theorem analyzeInto_recalling (supported : validateBlockSize size = .ok ()) (target : Spectrum) :
    (recalling size past).analyzeInto samples target =
      .ok (spectrumOf (recent size (past ++ samples.take size)),
        recalling size (past ++ samples.take size)) := by
  rw [analyzeInto_eq (t := recalling size past) (length_recent size past) supported, slid_recalling]
  rfl

theorem analyze_recalling (supported : validateBlockSize size = .ok ()) :
    (recalling size past).analyze samples =
      .ok (spectrumOf (recent size (past ++ samples.take size)),
        recalling size (past ++ samples.take size)) :=
  analyzeInto_recalling past samples supported _

theorem length_spectrumOf_recent (supported : validateBlockSize size = .ok ()) :
    (spectrumOf (recent size past)).length = size / 2 := by
  have length := length_recent size past
  have magnitudes := length_magnitudes (recent size past) (by rwa [length])
  rw [length] at magnitudes
  exact magnitudes

theorem recent_of_longer (shared : List Sample) (enough : size ≤ shared.length) :
    recent size (past ++ shared) = shared.drop (shared.length - size) := by
  have whole : (List.replicate size 0 ++ past ++ shared).length =
      (List.replicate size 0 ++ past).length + shared.length := List.length_append
  have before : (List.replicate size 0 ++ past).length ≤
      (List.replicate size 0 ++ past).length + shared.length - size := by omega
  rw [recent, List.rtake, ← List.append_assoc, whole, List.drop_append,
    List.drop_of_length_le before, List.nil_append]
  congr 1
  omega

end

section
variable {size : Nat} (supported : validateBlockSize size = .ok ())
include supported

theorem perform_recalling (past : List Sample) (operation : Operation) :
    (recalling size past).perform operation =
      .ok (operation.input?.map fun _ => spectrumOf (recent size (hear size past operation)),
        recalling size (hear size past operation)) := by
  rw [perform_eq (t := recalling size past) (length_recent size past) supported]
  cases operation with
  | analyze samples | analyzeInto samples _ =>
    change Except.ok (some (spectrumOf ((recalling size past).slid samples).window),
      (recalling size past).slid samples) = _
    rw [slid_recalling]
    rfl
  | reset => exact congrArg (fun next => Except.ok (none, next)) (reset_recalling past)

theorem run_recalling (past : List Sample) (operations : List Operation) :
    (recalling size past).run operations =
      .ok (answers size past operations, recalling size (operations.foldl (hear size) past)) := by
  induction operations generalizing past with
  | nil => rfl
  | cons operation operations ih =>
    rw [run, Checked.trace_cons_eq perform _ _ _ _ _ (perform_recalling supported past operation)]
    change (Transform.run _ _).map _ = _
    rw [ih]
    rfl

end

section
variable {size : Nat} (past : List Sample)

theorem answers_append (first second : List Operation) :
    answers size past (first ++ second) =
      answers size past first ++ answers size (first.foldl (hear size) past) second := by
  induction first generalizing past with
  | nil => rfl
  | cons operation first ih => simp only [List.cons_append, answers, List.foldl_cons, ih]

theorem length_answers (operations : List Operation) :
    (answers size past operations).length = operations.length := by
  induction operations generalizing past with
  | nil => rfl
  | cons operation operations ih => simp only [answers, List.length_cons, ih]

theorem answers_snoc (operations : List Operation) (operation : Operation) :
    answers size past (operations ++ [operation]) =
      answers size past operations ++ [operation.input?.map fun _ =>
        spectrumOf (recent size ((operations ++ [operation]).foldl (hear size) past))] := by
  rw [answers_append, List.foldl_append]
  rfl

theorem answer_of_call (before : List Operation) (operation : Operation) (after : List Operation) :
    (answers size past (before ++ operation :: after))[before.length]? =
      some (operation.input?.map fun _ =>
        spectrumOf (recent size ((before ++ [operation]).foldl (hear size) past))) := by
  rw [List.append_cons, answers_append, answers_snoc, List.append_assoc,
    List.getElem?_append_right (length_answers past before).le, length_answers, Nat.sub_self]
  rfl

theorem answers_bins (supported : validateBlockSize size = .ok ()) (operations : List Operation) :
    ∀ answer ∈ answers size past operations, ∀ spectrum ∈ answer, spectrum.length = size / 2 := by
  induction operations generalizing past with
  | nil => simp [answers]
  | cons operation operations ih =>
    refine List.forall_mem_cons.mpr ⟨fun spectrum shown => ?_, ih (hear size past operation)⟩
    obtain ⟨samples, -, rfl⟩ := Option.map_eq_some_iff.mp shown
    exact length_spectrumOf_recent _ supported

end

/-- Pieces that fit in a block are heard as the whole of it. -/
theorem foldl_hear (size : Nat) (past : List Sample) (cut : List Operation)
    (inputs : ∀ piece ∈ cut, piece.input?.isSome)
    (fits : (cut.filterMap Operation.input?).flatten.length ≤ size) :
    cut.foldl (hear size) past = past ++ (cut.filterMap Operation.input?).flatten := by
  induction cut generalizing past with
  | nil => simp
  | cons piece cut ih =>
    obtain ⟨given, others⟩ := List.forall_mem_cons.mp inputs
    obtain ⟨samples, brings⟩ := Option.isSome_iff_exists.mp given
    rw [List.filterMap_cons_some brings, List.flatten_cons, List.length_append] at fits
    have step : hear size past piece = past ++ samples := by
      rw [hear, brings]
      exact congrArg (past ++ ·) (List.take_of_length_le (by omega))
    rw [List.foldl_cons, ih (hear size past piece) others (by omega), step,
      List.filterMap_cons_some brings, List.flatten_cons, List.append_assoc]

theorem configure_recalling {size : Nat} {t : Transform} (configured : configure size = .ok t) :
    validateBlockSize size = .ok () ∧ t = recalling size [] := by
  unfold configure at configured
  cases supported : validateBlockSize size with
  | error e =>
    rw [supported] at configured
    cases configured
  | ok valid =>
    rw [supported] at configured
    cases configured
    exact ⟨rfl, congrArg (Transform.mk size) (recent_nil size).symm⟩

/-- Every call of a run is answered by the spectrum of the most recent samples: those of the
inputs since the last reset, the first of each up to the block size, behind the silence at the
start. So neither the end of a long input nor the spectrum at hand nor anything further back
matters, and a block may come in pieces. -/
theorem window_of_recent_past {size : Nat} {t : Transform} (configured : configure size = .ok t)
    (operations : List Operation) : ∃ answers last, t.run operations = .ok (answers, last) ∧
      answers.length = operations.length ∧ RecentPast size t operations answers last := by
  obtain ⟨supported, rfl⟩ := configure_recalling configured
  refine ⟨_, _, run_recalling supported [] operations, length_answers [] operations,
    ?_, ?_, ?_, ?_, ?_, ?_⟩
  · rintro before operation after rfl
    exact answer_of_call [] before operation after
  · exact answers_bins [] supported operations
  · intro samples
    rw [analyze_recalling _ _ supported, analyze_recalling _ _ supported, List.take_take,
      Nat.min_self]
  · intro samples target
    rw [analyzeInto_recalling _ _ supported, analyze_recalling _ _ supported]
  · intro cut some inputs fits
    obtain ⟨before, piece, rfl⟩ := (List.eq_nil_or_concat' cut).resolve_left some
    obtain ⟨samples, brings⟩ := Option.isSome_iff_exists.mp (inputs piece (by simp))
    refine ⟨_, _, answers size (operations.foldl (hear size) []) before,
      analyze_recalling _ _ supported, ?_⟩
    rw [run_recalling supported, answers_snoc, foldl_hear _ _ _ inputs fits, brings,
      List.take_of_length_le fits]
    rfl
  · intro others first second shared own also enough
    refine ⟨answers size [] others, ?_⟩
    change heard size operations = _ at own
    rw [run_recalling supported]
    change .ok (_, recalling size (heard size others)) = Except.ok (_, recalling size (heard size operations))
    rw [own, also, recalling, recalling, recent_of_longer _ _ enough, recent_of_longer _ _ enough]

theorem window_of_recent_past_after_reset : ∃ t answers last, configure 32 = .ok t ∧
    t.run [.analyze [900, 9], .reset, .analyzeInto [1, 2, 3] ⟨[7]⟩, .analyze []] =
      .ok (answers, last) ∧
    answers[3]? = some (some (spectrumOf (List.replicate 29 0 ++ [1, 2, 3]))) ∧
    ∃ spectrum next earlier, last.analyze [4, 5, 6] = .ok (spectrum, next) ∧
      last.run [.analyze [4], .analyzeInto [5, 6] ⟨[]⟩] = .ok (earlier ++ [some spectrum], next) := by
  obtain ⟨t, configured⟩ : ∃ t, configure 32 = .ok t := ⟨_, rfl⟩
  obtain ⟨answers, last, ran, -, recent⟩ := window_of_recent_past configured
    [.analyze [900, 9], .reset, .analyzeInto [1, 2, 3] ⟨[7]⟩, .analyze []]
  refine ⟨t, answers, last, configured, ran, ?_, ?_⟩
  · exact recent.call [.analyze [900, 9], .reset, .analyzeInto [1, 2, 3] ⟨[7]⟩] (.analyze []) [] rfl
  · exact recent.pieces [.analyze [4], .analyzeInto [5, 6] ⟨[]⟩] (by decide) (by decide) (by decide)

end BandLight.Transform
