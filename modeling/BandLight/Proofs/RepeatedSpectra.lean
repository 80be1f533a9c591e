import BandLight.Proofs.RetriggerBounds

/-! A spectrum that is seen again. The tick that has seen it leaves no band further above
what it remembers than the threshold, and the next tick of the same spectrum finds the same
energies, the same total and so the same scaling. It lists nothing and changes nothing, and
neither does any tick of that spectrum after it. -/
namespace BandLight.Aggregator

/-- The list that the events of an operation are put behind. -/
def Operation.collected : Operation → List LevelEvent
  | tickInto _ collected => collected
  | _ => []

section
variable {a b : Aggregator} {bands : List Band} {length : Nat} {s : Spectrum}

/-- The total is the same; in silence, what is kept has been kept before. -/
theorem scaling_ticked : (a.ticked s).tickThreshold s = a.tickThreshold s ∧
    (a.ticked s).tickDivisor s = a.tickDivisor s := by
  have same : (a.ticked s).totalEnergy s = a.totalEnergy s := rfl
  by_cases energetic : 0 < a.totalEnergy s
  · simp only [tickThreshold, tickDivisor, same, if_pos energetic]
    exact ⟨rfl, rfl⟩
  · simp only [tickThreshold, tickDivisor, same, if_neg energetic]
    exact ⟨if_neg energetic, if_neg energetic⟩

/-- A band that was heard remembers its energy, and one that was not has not risen far. -/
theorem not_rises_ticked (i : Nat) : ¬ (a.ticked s).Rises s i := by
  have behind := ticked_behind (a := a) (s := s) i
  rintro ⟨-, rise⟩
  rw [scaling_ticked.1] at rise
  change (a.tickThreshold s : Int) < (a.energyOf s i : Int) - (a.ticked s).remembered i at rise
  omega

theorem nextRemembered_ticked (i : Nat) (inside : i < a.bands.length) :
    (a.ticked s).nextRemembered s i = a.nextRemembered s i := by
  rw [nextRemembered, if_neg (not_rises_ticked i), ticked_remembered i inside]
  change (if a.energyOf s i = 0 then 0 else a.nextRemembered s i) = _
  by_cases silent : a.energyOf s i = 0
  · rw [if_pos silent, nextRemembered, if_pos silent]
  · rw [if_neg silent]

theorem ticked_ticked : (a.ticked s).ticked s = a.ticked s := by
  have previous : (List.range a.bands.length).map ((a.ticked s).nextRemembered s) =
      (List.range a.bands.length).map (a.nextRemembered s) :=
    List.map_congr_left fun i member => nextRemembered_ticked i (List.mem_range.mp member)
  rw [ticked, scaling_ticked.1, scaling_ticked.2]
  change { a.ticked s with
    previous := (List.range a.bands.length).map ((a.ticked s).nextRemembered s) } = _
  rw [previous]
  rfl

theorem onsets_ticked : (a.ticked s).onsets s = [] := by
  refine List.filterMap_eq_nil_iff.mpr fun i _ => ?_
  exact if_neg (not_rises_ticked i)

/-- Band numbers fit in a word, so that the order of the bands is that of their events. -/
theorem onsets_ascending (few : a.bands.length ≤ UInt64.size) :
    (a.onsets s).Pairwise (·.band < ·.band) := by
  refine List.pairwise_filterMap.mpr ?_
  refine List.pairwise_lt_range.imp_of_mem fun {i j} first second below => ?_
  have last := List.mem_range.mp second
  have words : UInt64.ofNat i < UInt64.ofNat j := by
    rw [UInt64.lt_iff_toNat_lt, UInt64.toNat_ofNat_of_lt' (by omega),
      UInt64.toNat_ofNat_of_lt' (by omega)]
    exact below
  intro event shown other also
  split at shown
  · split at also
    · cases shown
      cases also
      exact words
    · cases also
  · cases shown

theorem Entry.added_listed {operation : Operation} (asked : operation.spectrum? = some s)
    (own : List LevelEvent) (after : Aggregator) :
    Entry.added ⟨operation, .listed (operation.collected ++ own), after⟩ = own := by
  cases operation with
  | tick other => rfl
  | tickInto other collected => exact List.drop_left
  | setTuning tuning => cases asked
  | reset => cases asked

theorem Keeps.note_eq (keeps : a.Keeps bands)
    (fits : ∀ band ∈ bands, band.energy s.bins < UInt32.size) {operation : Operation}
    (asked : operation.spectrum? = some s) : a.note operation = .ok
      (⟨operation, .listed (operation.collected ++ a.onsets s), a.ticked s⟩, a.ticked s) := by
  cases operation with
  | tick other =>
    cases asked
    rw [note, perform, keeps.tick_eq fits]
    rfl
  | tickInto other collected =>
    cases asked
    rw [note, perform, keeps.tickInto_eq fits]
    rfl
  | setTuning tuning => cases asked
  | reset => cases asked

/-- An aggregator that a tick would not change keeps still on every run of that tick. -/
theorem history_still (keeps : a.Keeps bands)
    (fits : ∀ band ∈ bands, band.energy s.bins < UInt32.size) (same : a.ticked s = a)
    (quiet : a.onsets s = []) (operations : List Operation)
    (steady : ∀ operation ∈ operations, operation.spectrum? = some s) :
    ∃ log, a.history operations = .ok (log, a) ∧
      ∀ entry ∈ log, entry.added = [] ∧ entry.after = a := by
  induction operations with
  | nil => exact ⟨[], rfl, by simp⟩
  | cons operation operations ih =>
    obtain ⟨asked, rest⟩ := List.forall_mem_cons.mp steady
    obtain ⟨log, ran, each⟩ := ih rest
    have noted := keeps.note_eq fits asked
    rw [same] at noted
    refine ⟨_, history_cons noted ran, List.forall_mem_cons.mpr ⟨⟨?_, rfl⟩, each⟩⟩
    rw [Entry.added_listed asked, quiet]

end

/-- Wherever a run has led, a spectrum that comes again finds everything as its first tick has
left it. However often it comes, each band is listed once at most, and by the first tick. -/
theorem repeated_spectrum_silent {a : Aggregator} {bands : List Band} {length : Nat}
    (reached : a.Reachable bands length) (s : Spectrum)
    (fits : ∀ band ∈ bands, band.energy s.bins < UInt32.size) :
    ∃ listed b, a.tick s = .ok (listed, b) ∧ b.tick s = .ok ([], b) ∧
      (∀ collected, b.tickInto s collected = .ok (collected, b)) ∧
      ∀ operation operations,
        (∀ other ∈ operation :: operations, other.spectrum? = some s) →
        ∃ entry log, a.history (operation :: operations) = .ok (entry :: log, b) ∧
          entry.added = listed ∧ entry.after = b ∧
          (∀ later ∈ log, later.added = [] ∧ later.after = b) ∧
          (bands.length ≤ UInt64.size →
            (((entry :: log).flatMap (·.added)).map (·.band)).Nodup) := by
  have placed := reached.placed
  have next := placed.ticked fits
  have again (collected : List LevelEvent) :
      (a.ticked s).tickInto s collected = .ok (collected, a.ticked s) := by
    rw [next.keeps.tickInto_eq fits, onsets_ticked, List.append_nil, ticked_ticked]
  refine ⟨a.onsets s, a.ticked s, placed.keeps.tick_eq fits, again [], again, ?_⟩
  intro operation operations steady
  obtain ⟨asked, rest⟩ := List.forall_mem_cons.mp steady
  have noted := placed.keeps.note_eq fits asked
  have added := Entry.added_listed asked (a.onsets s) (a.ticked s)
  obtain ⟨log, ran, each⟩ := history_still next.keeps fits ticked_ticked onsets_ticked operations rest
  refine ⟨_, log, history_cons noted ran, added, rfl, each, fun few => ?_⟩
  have none : log.flatMap (·.added) = [] :=
    List.flatMap_eq_nil_iff.mpr fun later member => (each later member).1
  rw [List.flatMap_cons, none, List.append_nil, added]
  rw [← placed.keeps.table] at few
  exact List.pairwise_map.mpr ((onsets_ascending few).imp fun below => UInt64.ne_of_lt below)

theorem repeated_spectrum_of_mixed_bands : ∃ (a b : Aggregator) (log : List Entry),
    a.Reachable [⟨0, 1, 0⟩, ⟨2, 2, 0⟩, ⟨3, 3, 0⟩] 4 ∧ a.previous = [120, 50, 0] ∧
      b.previous = [270, 50, 0] ∧
      a.history [.tickInto ⟨[250, 20, 52]⟩ [], .tick ⟨[250, 20, 52]⟩,
        .tickInto ⟨[250, 20, 52]⟩ [⟨7, 7⟩]] = .ok (log, b) ∧
      (log.flatMap (·.added)).map (·.band) = [0] := by
  have reached : Reachable
      ⟨[⟨0, 1, 0⟩, ⟨2, 2, 0⟩, ⟨3, 3, 0⟩], .standard, 4, [120, 50, 0], [120, 50, 0], 42, 6⟩
      [⟨0, 1, 0⟩, ⟨2, 2, 0⟩, ⟨3, 3, 0⟩] 4 :=
    ⟨.standard, _, [.tick ⟨[100, 20, 50]⟩], _, rfl, rfl⟩
  obtain ⟨listed, b, ticked, -, -, run⟩ :=
    repeated_spectrum_silent reached ⟨[250, 20, 52]⟩ (by decide)
  obtain ⟨entry, log, ran, added, -, quiet, -⟩ := run (.tickInto ⟨[250, 20, 52]⟩ [])
    [.tick ⟨[250, 20, 52]⟩, .tickInto ⟨[250, 20, 52]⟩ [⟨7, 7⟩]] (by decide)
  cases ticked
  have none : log.flatMap (·.added) = [] :=
    List.flatMap_eq_nil_iff.mpr fun later member => (quiet later member).1
  refine ⟨_, _, entry :: log, reached, rfl, rfl, ran, ?_⟩
  rw [List.flatMap_cons, none, List.append_nil, added]
  rfl

end BandLight.Aggregator
