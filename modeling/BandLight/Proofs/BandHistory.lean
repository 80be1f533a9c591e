import BandLight.Proofs.BandTicks

/-! The history of a band over whole runs. Ticks, changes of the tuning and
resets may come in any order; the sum that a band remembers is the one at its
last event, unless it has been silent or reset since. From one event of a band
to the next its sum has risen by more than the threshold, and a band that only
falls or holds emits no more. -/
namespace BandLight.Aggregator

inductive Operation
  | tick (s : Spectrum)
  /-- A tick whose events are put behind those in a list. -/
  | tickInto (s : Spectrum) (collected : List LevelEvent)
  | setTuning (tuning : Tuning)
  | reset
  deriving DecidableEq, Repr, Inhabited

inductive Outcome
  | listed (events : List LevelEvent)
  | refused (error : SetupError)
  | done
  deriving DecidableEq, Repr, Inhabited

def perform (a : Aggregator) : Operation → Checked (Outcome × Aggregator)
  | .tick s => do
      let (events, a) ← a.tick s
      return (.listed events, a)
  | .tickInto s collected => do
      let (events, a) ← a.tickInto s collected
      return (.listed events, a)
  | .setTuning tuning =>
      match a.setTuning tuning with
      | .ok next => .ok (.done, next)
      | .error error => .ok (.refused error, a)
  | .reset => .ok (.done, a.reset)

structure Entry where
  operation : Operation
  outcome : Outcome
  after : Aggregator
  deriving DecidableEq, Repr, Inhabited

def note (a : Aggregator) (operation : Operation) : Checked (Entry × Aggregator) := do
  let (outcome, after) ← a.perform operation
  return ({ operation, outcome, after }, after)

def history (a : Aggregator) (operations : List Operation) : Checked (List Entry × Aggregator) :=
  Checked.trace note a operations

def Operation.spectrum? : Operation → Option Spectrum
  | tick s | tickInto s _ => some s
  | _ => none

/-- Every band sum of the spectrum is a word. -/
def Operation.Fits (bands : List Band) (operation : Operation) : Prop :=
  ∀ s ∈ operation.spectrum?, ∀ band ∈ bands, ∃ sum, band.sum s.bins = .ok sum

namespace Entry

def added (entry : Entry) : List LevelEvent :=
  match entry.operation, entry.outcome with
  | .tick _, .listed events => events
  | .tickInto _ collected, .listed events => events.drop collected.length
  | _, _ => []

def ticks (entry : Entry) : Bool := entry.operation.spectrum?.isSome

def emits (entry : Entry) (i : Nat) : Bool := mentions entry.added i

/-- The band is reset, or a tick finds it silent. -/
def forgets (entry : Entry) (i : Nat) : Bool :=
  entry.operation == .reset || entry.ticks && entry.after.sumOf i == 0

end Entry

/-- What an entry tells about one band. -/
structure Noted (a : Aggregator) (entry : Entry) (i : Nat) : Prop where
  emitted : entry.emits i = true → a.remembered i + entry.after.threshold < entry.after.sumOf i ∧
    entry.after.remembered i = entry.after.sumOf i ∧ entry.ticks = true ∧
    entry.after.tuning.threshold entry.after.total = .ok entry.after.threshold
  silent : entry.emits i = false →
    entry.after.remembered i = if entry.forgets i then 0 else a.remembered i

/-- An aggregator of a band table that remembers one sum for each band. -/
structure Keeps (a : Aggregator) (bands : List Band) : Prop where
  table : a.bands = bands
  whole : a.previous.length = bands.length
  sound : a.Sound

section
variable {a b : Aggregator} {bands : List Band}

theorem getD_zeros {α : Type} (items : List α) (i : Nat) : (items.map fun _ => 0).getD i 0 = 0 := by
  rw [List.getD_eq_getElem?_getD, List.getElem?_map]
  cases items[i]? with
  | none => rfl
  | some item => rfl

theorem remembered_zeros {α : Type} (a : Aggregator) (items : List α)
    (zeros : a.previous = items.map fun _ => 0) (i : Nat) : a.remembered i = 0 := by
  rw [remembered, zeros, getD_zeros]

theorem configure_keeps {length : Nat} {tuning : Tuning}
    (configured : configure bands length tuning = .ok a) :
    a.Keeps bands ∧ ∀ i, a.remembered i = 0 := by
  have sound := configure_sound bands length tuning a configured
  obtain ⟨-, -, rfl⟩ := configure_success bands length tuning a configured
  exact ⟨⟨rfl, List.length_map _, sound⟩, remembered_zeros _ bands rfl⟩

theorem tick_noted (keeps : a.Keeps bands) (few : bands.length ≤ UInt64.size) (entry : Entry)
    (s : Spectrum) (listed : List LevelEvent) (ok : a.tick s = .ok (listed, entry.after))
    (spectrum : entry.operation.spectrum? = some s) (added : entry.added = listed) :
    entry.after.bands = bands ∧ entry.after.previous.length = bands.length ∧
      ∀ (i : Nat) (inside : i < bands.length), bands[i].sum s.bins = .ok (entry.after.sumOf i) ∧
        Noted a entry i := by
  obtain ⟨verdicts, ticked⟩ := ticked_of_tick ok
  obtain ⟨rfl, whole, sound⟩ := keeps
  obtain ⟨-, -, lengths⟩ := ticked.lengths whole
  rw [ticked.bands] at lengths
  refine ⟨ticked.bands, lengths, fun i inside => ⟨ticked.sum_eq i inside, ?_⟩⟩
  have ticks : entry.ticks = true := by
    rw [Entry.ticks, spectrum]
    rfl
  have other : (entry.operation == .reset) = false := by
    apply beq_eq_false_iff_ne.mpr
    intro same
    rw [same] at spectrum
    cases spectrum
  have forgets : entry.forgets i = (entry.after.sumOf i == 0) := by
    rw [Entry.forgets, ticks, other]
    rfl
  have judged := ticked.judged_band whole few i inside
  have emits : entry.emits i = mentions listed i := by rw [Entry.emits, added]
  rw [← emits] at judged
  -- Only a band that was judged to rise has an event in the list.
  generalize shown : entry.emits i = emitted at judged
  cases judged with
  | silent sum forgotten =>
    refine ⟨fun emitted => ?_, fun _ => ?_⟩
    · rw [shown] at emitted
      cases emitted
    · rw [forgets, sum, forgotten]
      rfl
  | emitted rise kept =>
    refine ⟨fun _ => ⟨rise, kept, ticks, ticked.threshold_eq i (by omega)⟩, fun quiet => ?_⟩
    rw [shown] at quiet
    cases quiet
  | quiet sum low kept =>
    refine ⟨fun emitted => ?_, fun _ => ?_⟩
    · rw [shown] at emitted
      cases emitted
    · rw [forgets, beq_eq_false_iff_ne.mpr sum, kept]
      rfl

theorem tick_sound (sound : a.Sound) (s : Spectrum) (listed : List LevelEvent)
    (ok : a.tick s = .ok (listed, b)) : b.Sound := by
  obtain ⟨verdicts, ticked⟩ := ticked_of_tick ok
  obtain ⟨events, next, same, kept⟩ := a.tick_fits sound s fun band member => by
    obtain ⟨i, inside, rfl⟩ := List.getElem_of_mem member
    exact ⟨_, ticked.sum_eq i inside⟩
  rw [ok] at same
  cases same
  exact kept

theorem note_success (keeps : a.Keeps bands) (few : bands.length ≤ UInt64.size)
    (operation : Operation) (entry : Entry) (noted : a.note operation = .ok (entry, b)) :
    entry.operation = operation ∧ entry.after = b ∧ b.Keeps bands ∧
      ∀ (i : Nat) (inside : i < bands.length), Noted a entry i ∧
        ∀ s ∈ operation.spectrum?, bands[i].sum s.bins = .ok (b.sumOf i) := by
  obtain ⟨⟨outcome, after⟩, performed, noted⟩ := Checked.bind_success _ _ _ noted
  cases noted
  refine ⟨rfl, rfl, ?_⟩
  cases operation with
  | tick s =>
    obtain ⟨⟨events, next⟩, ticked, performed⟩ := Checked.bind_success _ _ _ performed
    cases performed
    obtain ⟨table, whole, each⟩ :=
      tick_noted keeps few ⟨.tick s, .listed events, b⟩ s events ticked rfl rfl
    refine ⟨⟨table, whole, tick_sound keeps.sound s events ticked⟩, fun i inside => ?_⟩
    obtain ⟨sum, own⟩ := each i inside
    refine ⟨own, fun other same => ?_⟩
    cases same
    exact sum
  | tickInto s collected =>
    obtain ⟨⟨events, next⟩, ticked, performed⟩ := Checked.bind_success _ _ _ performed
    cases performed
    obtain ⟨listed, run, rfl⟩ := tickInto_success ticked
    obtain ⟨table, whole, each⟩ := tick_noted keeps few
      ⟨.tickInto s collected, .listed (collected ++ listed), b⟩ s listed run rfl List.drop_left
    refine ⟨⟨table, whole, tick_sound keeps.sound s listed run⟩, fun i inside => ?_⟩
    obtain ⟨sum, own⟩ := each i inside
    refine ⟨own, fun other same => ?_⟩
    cases same
    exact sum
  | setTuning tuning =>
    cases valid : tuning.validate with
    | error e =>
      rw [perform, a.setTuning_error tuning e valid] at performed
      cases performed
      exact ⟨keeps, fun i inside => ⟨⟨nofun, fun _ => rfl⟩, nofun⟩⟩
    | ok done =>
      rw [perform, a.setTuning_eq tuning valid] at performed
      cases performed
      have sound := keeps.sound
      exact ⟨⟨keeps.table, keeps.whole, sound.ordered, valid, sound.previous, sound.divisor⟩,
        fun i inside => ⟨⟨nofun, fun _ => rfl⟩, nofun⟩⟩
  | reset =>
    cases performed
    exact ⟨⟨keeps.table, (List.length_map _).trans keeps.whole, a.reset_sound keeps.sound⟩,
      fun i inside => ⟨⟨nofun, fun _ => remembered_zeros _ a.previous rfl i⟩, nofun⟩⟩

theorem note_fits (keeps : a.Keeps bands) (operation : Operation) (fits : operation.Fits bands) :
    ∃ entry next, a.note operation = .ok (entry, next) := by
  have ticks (s : Spectrum) (asked : operation.spectrum? = some s) :
      ∃ events next, a.tick s = .ok (events, next) := by
    obtain ⟨events, next, ticked, _⟩ := a.tick_fits keeps.sound s (by
      rw [keeps.table]
      exact fits s asked)
    exact ⟨events, next, ticked⟩
  cases operation with
  | tick s =>
    obtain ⟨events, next, ticked⟩ := ticks s rfl
    rw [note, perform, ticked]
    exact ⟨_, _, rfl⟩
  | tickInto s collected =>
    obtain ⟨events, next, ticked⟩ := ticks s rfl
    rw [note, perform, tickInto_eq, ticked]
    exact ⟨_, _, rfl⟩
  | setTuning tuning =>
    rw [note, perform]
    split
    · exact ⟨_, _, rfl⟩
    · exact ⟨_, _, rfl⟩
  | reset => exact ⟨_, _, rfl⟩

theorem history_cons {operation : Operation} {operations : List Operation} {entry : Entry}
    {next : Aggregator} {log : List Entry} (noted : a.note operation = .ok (entry, next))
    (ran : next.history operations = .ok (log, b)) :
    a.history (operation :: operations) = .ok (entry :: log, b) := by
  rw [history, Checked.trace_cons_eq note _ _ _ _ _ noted]
  exact congrArg (Except.map _) ran

theorem history_success (keeps : a.Keeps bands) (few : bands.length ≤ UInt64.size)
    (operations : List Operation) (fits : ∀ operation ∈ operations, operation.Fits bands) :
    ∃ log b, a.history operations = .ok (log, b) := by
  induction operations generalizing a with
  | nil => exact ⟨[], a, rfl⟩
  | cons operation operations ih =>
    obtain ⟨entry, next, noted⟩ := note_fits keeps operation (fits operation (by simp))
    obtain ⟨-, -, kept, -⟩ := note_success keeps few operation entry noted
    obtain ⟨log, b, ran⟩ := ih kept fun other member => fits other (by simp [member])
    exact ⟨entry :: log, b, history_cons noted ran⟩

theorem history_keeps (keeps : a.Keeps bands) (few : bands.length ≤ UInt64.size)
    (operations : List Operation) (log : List Entry) (ran : a.history operations = .ok (log, b)) :
    b.Keeps bands ∧ log.map (·.operation) = operations := by
  induction operations generalizing a log with
  | nil =>
    cases ran
    exact ⟨keeps, rfl⟩
  | cons operation operations ih =>
    obtain ⟨entry, next, rest, noted, tail, rfl⟩ := Checked.trace_cons note _ _ _ _ _ ran
    obtain ⟨same, -, kept, -⟩ := note_success keeps few operation entry noted
    obtain ⟨last, operated⟩ := ih kept rest tail
    exact ⟨last, by rw [List.map_cons, same, operated]⟩

theorem history_quiet (keeps : a.Keeps bands) (few : bands.length ≤ UInt64.size)
    (operations : List Operation) (log : List Entry) (ran : a.history operations = .ok (log, b))
    (i : Nat) (inside : i < bands.length) (quiet : ∀ entry ∈ log, entry.emits i = false) :
    b.remembered i = if log.any (·.forgets i) then 0 else a.remembered i := by
  induction operations generalizing a log with
  | nil =>
    cases ran
    rfl
  | cons operation operations ih =>
    obtain ⟨entry, next, rest, noted, tail, rfl⟩ := Checked.trace_cons note _ _ _ _ _ ran
    obtain ⟨-, rfl, kept, each⟩ := note_success keeps few operation entry noted
    have first := (each i inside).1.silent (quiet entry (by simp))
    rw [ih kept rest tail fun other member => quiet other (by simp [member]), first,
      List.any_cons]
    cases entry.forgets i with
    | true => simp only [Bool.true_or, if_true, ite_self]
    | false => rfl

end

structure BandHistory (band : Band) (i : Nat) (log : List Entry) (b : Aggregator) : Prop where
  sums : ∀ entry ∈ log, ∀ s ∈ entry.operation.spectrum?, band.sum s.bins = .ok (entry.after.sumOf i)
  never : (∀ entry ∈ log, entry.emits i = false) → b.previous[i]? = some 0
  latest : ∀ before entry after, log = before ++ entry :: after → entry.emits i = true →
    (∀ later ∈ after, later.emits i = false) →
    b.previous[i]? = some (if after.any (·.forgets i) then 0 else entry.after.sumOf i)
  /-- From one event to the next the sum rises by more than the threshold. -/
  rising : ∀ before first middle second after,
    log = before ++ first :: (middle ++ second :: after) →
    first.emits i = true → second.emits i = true →
    (∀ entry ∈ middle, entry.emits i = false ∧ entry.forgets i = false) →
    first.after.sumOf i + second.after.threshold < second.after.sumOf i ∧
      second.after.tuning.threshold second.after.total = .ok second.after.threshold
  /-- A band that falls or holds at every tick emits no more until it is reset. -/
  falling : ∀ before first after, log = before ++ first :: after → first.emits i = true →
    (∀ entry ∈ after, entry.operation ≠ .reset) →
    (first :: after).Pairwise (fun earlier later => earlier.ticks = true → later.ticks = true →
      later.after.sumOf i ≤ earlier.after.sumOf i) →
    ∀ entry ∈ after, entry.emits i = false

section
variable {a b : Aggregator} {bands : List Band} {operations : List Operation} {log : List Entry}
  {i : Nat}

theorem history_split (keeps : a.Keeps bands) (few : bands.length ≤ UInt64.size)
    (inside : i < bands.length) (before : List Entry) (entry : Entry) (after : List Entry)
    (ran : a.history operations = .ok (before ++ entry :: after, b)) :
    ∃ earlier later c, a.history earlier = .ok (before, c) ∧ c.Keeps bands ∧ Noted c entry i ∧
      (∀ s ∈ entry.operation.spectrum?, bands[i].sum s.bins = .ok (entry.after.sumOf i)) ∧
      entry.after.Keeps bands ∧ entry.after.history later = .ok (after, b) := by
  obtain ⟨earlier, operation, later, c, next, rfl, head, noted, tail⟩ :=
    Checked.trace_split note _ _ _ _ _ _ ran
  obtain ⟨kept, -⟩ := history_keeps keeps few earlier before head
  obtain ⟨rfl, rfl, last, each⟩ := note_success kept few operation entry noted
  exact ⟨earlier, later, c, head, kept, (each i inside).1, (each i inside).2, last, tail⟩

theorem rises (keeps : a.Keeps bands) (few : bands.length ≤ UInt64.size) (inside : i < bands.length)
    (before : List Entry) (first : Entry) (middle : List Entry) (second : Entry)
    (after : List Entry)
    (ran : a.history operations = .ok (before ++ first :: (middle ++ second :: after), b))
    (emits : first.emits i = true) (again : second.emits i = true)
    (untouched : ∀ entry ∈ middle, entry.emits i = false ∧ entry.forgets i = false) :
    first.after.sumOf i + second.after.threshold < second.after.sumOf i ∧
      second.after.tuning.threshold second.after.total = .ok second.after.threshold := by
  obtain ⟨_, rest, c, _, _, noted, _, kept, tail⟩ :=
    history_split keeps few inside before first _ ran
  obtain ⟨between, _, d, run, _, other, _⟩ := history_split kept few inside middle second after tail
  -- Between the two events the band remembers the sum of the first.
  have same := history_quiet kept few between middle run i inside fun entry member =>
    (untouched entry member).1
  have none : middle.any (·.forgets i) = false :=
    List.any_eq_false.mpr fun entry member => by simp [(untouched entry member).2]
  rw [none, (noted.emitted emits).2.1] at same
  obtain ⟨rise, _, _, threshold⟩ := other.emitted again
  rw [same] at rise
  exact ⟨rise, threshold⟩

theorem falls (keeps : a.Keeps bands) (few : bands.length ≤ UInt64.size) (inside : i < bands.length)
    (before : List Entry) (first : Entry) (after : List Entry)
    (ran : a.history operations = .ok (before ++ first :: after, b)) (emits : first.emits i = true)
    (kept : ∀ entry ∈ after, entry.operation ≠ .reset)
    (falling : (first :: after).Pairwise (fun earlier later => earlier.ticks = true →
      later.ticks = true → later.after.sumOf i ≤ earlier.after.sumOf i)) :
    ∀ entry ∈ after, entry.emits i = false := by
  by_contra emitted
  -- The first event after the one at hand cannot be.
  obtain ⟨second, found⟩ : ∃ second, after.find? (·.emits i) = some second := by
    apply Option.isSome_iff_exists.mp
    rw [List.find?_isSome]
    simpa using emitted
  obtain ⟨again, middle, rest, rfl, none⟩ := List.find?_eq_some_iff_append.mp found
  have quiet : ∀ entry ∈ middle, entry.emits i = false := fun entry member => by
    simpa using none entry member
  obtain ⟨_, _, _, _, _, noted, _, following, tail⟩ :=
    history_split keeps few inside before first _ ran
  obtain ⟨_, _, c, _, _, other, _⟩ := history_split following few inside middle second rest tail
  obtain ⟨rise, _, ticks, _⟩ := other.emitted again
  have ordered := List.pairwise_cons.mp falling
  by_cases untouched : ∀ entry ∈ middle, entry.forgets i = false
  · have higher := (rises keeps few inside before first middle second rest ran emits again
      fun entry member => ⟨quiet entry member, untouched entry member⟩).1
    have lower := ordered.1 second (by simp) (noted.emitted emits).2.2.1 ticks
    omega
  · obtain ⟨silent, member, forgets⟩ : ∃ entry ∈ middle, entry.forgets i = true := by
      simpa using untouched
    have still := kept silent (by simp [member])
    rw [Entry.forgets, beq_eq_false_iff_ne.mpr still, Bool.false_or, Bool.and_eq_true,
      beq_iff_eq] at forgets
    have lower := (List.pairwise_append.mp ordered.2).2.2 silent member second (by simp)
      forgets.1 ticks
    omega

theorem band_history_of_run (keeps : a.Keeps bands) (few : bands.length ≤ UInt64.size)
    (zero : a.remembered i = 0) (inside : i < bands.length)
    (ran : a.history operations = .ok (log, b)) : BandHistory bands[i] i log b := by
  obtain ⟨last, -⟩ := history_keeps keeps few operations log ran
  have found : b.previous[i]? = some (b.remembered i) := by
    have there : i < b.previous.length := by
      rw [last.whole]
      exact inside
    rw [remembered, List.getD_eq_getElem _ _ there, List.getElem?_eq_getElem there]
  refine ⟨?_, ?_, ?_, ?_, ?_⟩
  · intro entry member s asked
    obtain ⟨before, after, rfl⟩ := List.append_of_mem member
    obtain ⟨_, _, _, _, _, _, sums, _⟩ := history_split keeps few inside before entry after ran
    exact sums s asked
  · intro quiet
    rw [found, history_quiet keeps few operations log ran i inside quiet, zero, ite_self]
  · intro before entry after same emits quiet
    subst same
    obtain ⟨_, later, _, _, _, noted, _, kept, tail⟩ :=
      history_split keeps few inside before entry after ran
    rw [found, history_quiet kept few later after tail i inside quiet, (noted.emitted emits).2.1]
  · intro before first middle second after same emits again untouched
    subst same
    exact rises keeps few inside before first middle second after ran emits again untouched
  · intro before first after same emits kept falling
    subst same
    exact falls keeps few inside before first after ran emits kept falling

end

/-- Whatever an aggregator goes through, a band remembers the sum at its last
event, unless it has been silent or reset since; it remembers nothing else. -/
theorem band_history {bands : List Band} {length : Nat} {tuning : Tuning} {a : Aggregator}
    (configured : configure bands length tuning = .ok a) (numbered : bands.length ≤ UInt64.size)
    (operations : List Operation) :
    ((∀ operation ∈ operations, operation.Fits bands) →
      ∃ log b, a.history operations = .ok (log, b)) ∧
    ∀ log b, a.history operations = .ok (log, b) → log.map (·.operation) = operations ∧
      ∀ (i : Nat) (inside : i < bands.length), BandHistory bands[i] i log b := by
  obtain ⟨keeps, zero⟩ := configure_keeps configured
  refine ⟨history_success keeps numbered operations, fun log b ran => ?_⟩
  obtain ⟨-, operated⟩ := history_keeps keeps numbered operations log ran
  exact ⟨operated, fun i inside => band_history_of_run keeps numbered (zero i) inside ran⟩

theorem band_history_falling : ∃ a log b, configure [⟨0, 1, 0⟩] 2 .standard = .ok a ∧
    a.history [.tick ⟨[100, 20]⟩, .tickInto ⟨[60, 0]⟩ []] = .ok (log, b) ∧
    b.previous[0]? = some 120 := by
  obtain ⟨a, first, second, b, configured, ran, emits, quiet, sum, kept⟩ : ∃ a first second b,
      configure [⟨0, 1, 0⟩] 2 .standard = .ok a ∧
      a.history [.tick ⟨[100, 20]⟩, .tickInto ⟨[60, 0]⟩ []] = .ok ([first, second], b) ∧
      first.emits 0 = true ∧ second.emits 0 = false ∧ first.after.sumOf 0 = 120 ∧
      second.forgets 0 = false := ⟨_, _, _, _, rfl, rfl, rfl, rfl, rfl, rfl⟩
  obtain ⟨-, each⟩ := (band_history configured (by decide) _).2 [first, second] b ran
  have latest := (each 0 (by decide)).latest [] first [second] rfl emits (by simp [quiet])
  rw [sum, List.any_cons, kept] at latest
  exact ⟨a, _, b, configured, ran, latest⟩

end BandLight.Aggregator
