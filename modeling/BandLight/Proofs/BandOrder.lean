import BandLight.Proofs.RepeatedSpectra

/-! The order of the bands. Bands in another order have their sums and their history in that
order too, and all of them together the same total. So threshold and divisor stay as they
were, and the events are those of the other order under the numbers that the bands have
there. This lasts over whole runs, faults included. -/
namespace BandLight.Aggregator

/-- The items at some positions, in the order of the positions. -/
def arranged {α : Type} [Inhabited α] (order : List Nat) (items : List α) : List α :=
  order.map fun i => items.getD i default

/-- The aggregator of the same bands in another order, with all that goes by band. -/
def rearranged (a : Aggregator) (order : List Nat) : Aggregator :=
  { a with
    bands := arranged order a.bands
    sums := arranged order a.sums
    previous := arranged order a.previous }

/-- The event under the number that its band had before. -/
def renumbered (order : List Nat) (event : LevelEvent) : LevelEvent :=
  { event with band := UInt64.ofNat (order.getD event.band.toNat 0) }

/-- The entries of one operation on an aggregator and on its rearrangement. -/
structure Entry.Relabels (order : List Nat) (first second : Entry) : Prop where
  operation : second.operation = first.operation
  after : second.after = first.after.rearranged order
  sums : first.after.sums.length = order.length
  previous : first.after.previous.length = order.length
  added : (second.added.map (renumbered order)).Perm first.added
  ascending : first.added.Pairwise (·.band < ·.band) ∧ second.added.Pairwise (·.band < ·.band)
  listed : first.ticks = true → ∃ collected,
    first.outcome = .listed (collected ++ first.added) ∧
      second.outcome = .listed (collected ++ second.added)
  other : first.ticks = false → second.outcome = first.outcome

theorem map_getD_range {α : Type} (items : List α) (d : α) :
    (List.range items.length).map (items.getD · d) = items := by
  apply List.ext_getElem
  · simp
  · intro i left right
    simp [right]

theorem length_order {n : Nat} {order : List Nat} (permuted : order.Perm (List.range n)) :
    order.length = n := by
  simpa using permuted.length_eq

theorem map_range_order {β : Type} (order : List Nat) (f : Nat → β) :
    ((List.range order.length).map fun j => f (order.getD j 0)) = order.map f := by
  have places := congrArg (List.map f) (map_getD_range order 0)
  rwa [List.map_map] at places

section
variable {α β : Type} [Inhabited α] [Inhabited β] {order : List Nat} {items : List α}

theorem length_arranged (order : List Nat) (items : List α) :
    (arranged order items).length = order.length := List.length_map _

theorem arranged_perm (permuted : order.Perm (List.range items.length)) :
    (arranged order items).Perm items := by
  have moved := permuted.map (items.getD · default)
  rwa [map_getD_range] at moved

theorem arranged_map (permuted : order.Perm (List.range items.length)) (f : α → β) :
    arranged order (items.map f) = (arranged order items).map f := by
  rw [arranged, arranged, List.map_map]
  refine List.map_congr_left fun i member => ?_
  have inside : i < items.length := List.mem_range.mp (permuted.mem_iff.mp member)
  simp [inside]

theorem arranged_range {n : Nat} (permuted : order.Perm (List.range n)) (f : Nat → α) :
    arranged order ((List.range n).map f) = order.map f := by
  refine List.map_congr_left fun i member => ?_
  have inside : i < n := List.mem_range.mp (permuted.mem_iff.mp member)
  simp [inside]

theorem getD_arranged (order : List Nat) (items : List α) (j : Nat) (inside : j < order.length) :
    (arranged order items).getD j default = items.getD (order.getD j 0) default := by
  simp [arranged, inside]

end

section
variable {a b : Aggregator} {bands : List Band} {length : Nat} {s : Spectrum} {order : List Nat}

theorem length_energies (a : Aggregator) (s : Spectrum) : (a.energies s).length = a.bands.length :=
  List.length_map _

theorem energies_rearranged (permuted : order.Perm (List.range a.bands.length)) :
    (a.rearranged order).energies s = arranged order (a.energies s) :=
  (arranged_map permuted _).symm

theorem totalEnergy_rearranged (permuted : order.Perm (List.range a.bands.length)) :
    (a.rearranged order).totalEnergy s = a.totalEnergy s := by
  have same : (arranged order (a.energies s)).Perm (a.energies s) :=
    arranged_perm (by rwa [length_energies])
  rw [totalEnergy, energies_rearranged permuted, same.sum_nat, totalEnergy]

theorem scaling_rearranged (permuted : order.Perm (List.range a.bands.length)) :
    (a.rearranged order).tickThreshold s = a.tickThreshold s ∧
      (a.rearranged order).tickDivisor s = a.tickDivisor s := by
  simp only [tickThreshold, tickDivisor, totalEnergy_rearranged permuted]
  exact ⟨rfl, rfl⟩

theorem remembered_rearranged (j : Nat) (inside : j < order.length) :
    (a.rearranged order).remembered j = a.remembered (order.getD j 0) :=
  getD_arranged order a.previous j inside

section
variable (permuted : order.Perm (List.range a.bands.length)) (j : Nat) (inside : j < order.length)
include permuted inside

theorem energyOf_rearranged :
    (a.rearranged order).energyOf s j = a.energyOf s (order.getD j 0) := by
  rw [energyOf, energies_rearranged permuted]
  exact getD_arranged order _ j inside

theorem rises_rearranged : (a.rearranged order).Rises s j ↔ a.Rises s (order.getD j 0) := by
  rw [Rises, Rises, energyOf_rearranged permuted j inside, remembered_rearranged j inside,
    (scaling_rearranged permuted).1]

theorem levelOf_rearranged :
    (a.rearranged order).levelOf s j = a.levelOf s (order.getD j 0) := by
  rw [levelOf, levelOf, energyOf_rearranged permuted j inside, (scaling_rearranged permuted).2]

theorem nextRemembered_rearranged :
    (a.rearranged order).nextRemembered s j = a.nextRemembered s (order.getD j 0) := by
  simp only [nextRemembered, energyOf_rearranged permuted j inside,
    remembered_rearranged j inside, rises_rearranged permuted j inside]

end

theorem ticked_rearranged (permuted : order.Perm (List.range a.bands.length)) :
    (a.rearranged order).ticked s = (a.ticked s).rearranged order := by
  have previous : (List.range (arranged order a.bands).length).map
      ((a.rearranged order).nextRemembered s) =
      arranged order ((List.range a.bands.length).map (a.nextRemembered s)) := by
    rw [length_arranged, arranged_range permuted, ← map_range_order order]
    exact List.map_congr_left fun j member =>
      nextRemembered_rearranged permuted j (List.mem_range.mp member)
  rw [ticked, energies_rearranged permuted, (scaling_rearranged permuted).1,
    (scaling_rearranged permuted).2]
  change { (a.ticked s).rearranged order with
    previous := (List.range (arranged order a.bands).length).map
      ((a.rearranged order).nextRemembered s) } = _
  rw [previous]
  rfl

theorem onsets_rearranged (permuted : order.Perm (List.range a.bands.length))
    (few : a.bands.length ≤ UInt64.size) :
    (((a.rearranged order).onsets s).map (renumbered order)).Perm (a.onsets s) := by
  let onset (i : Nat) : Option LevelEvent :=
    if a.Rises s i then some { band := UInt64.ofNat i, level := a.levelOf s i } else none
  have size := length_order permuted
  have moved : ((a.rearranged order).onsets s).map (renumbered order) = order.filterMap onset := by
    have through : order.filterMap onset =
        (List.range order.length).filterMap fun j => onset (order.getD j 0) := by
      have places := congrArg (List.filterMap onset) (map_getD_range order 0)
      rw [List.filterMap_map] at places
      exact places.symm
    rw [through, onsets, List.map_filterMap]
    change (List.range (arranged order a.bands).length).filterMap _ = _
    rw [length_arranged]
    refine List.filterMap_congr fun j member => ?_
    have inside := List.mem_range.mp member
    have number : (UInt64.ofNat j).toNat = j := UInt64.toNat_ofNat_of_lt' (by omega)
    simp only [rises_rearranged permuted j inside, levelOf_rearranged permuted j inside, onset]
    split
    · rw [Option.map_some, renumbered, number]
    · rfl
  rw [moved]
  exact permuted.filterMap onset

theorem Keeps.rearranged (keeps : a.Keeps bands)
    (permuted : order.Perm (List.range bands.length)) :
    (a.rearranged order).Keeps (arranged order bands) := by
  obtain ⟨rfl, whole, ordered, tuning, previous, divisor⟩ := keeps
  have table := arranged_perm permuted
  have past : (arranged order a.previous).Perm a.previous := arranged_perm (by rwa [whole])
  refine ⟨rfl, ?_, ?_, tuning, ?_, divisor⟩
  · exact (length_arranged order a.previous).trans (length_arranged order a.bands).symm
  · exact fun band member => ordered band (table.mem_iff.mp member)
  · exact fun sum member => previous sum (past.mem_iff.mp member)

theorem Keeps.note_overflow (keeps : a.Keeps bands) {operation : Operation}
    (asked : operation.spectrum? = some s)
    (beyond : ∃ band ∈ bands, UInt32.size ≤ band.energy s.bins) :
    a.note operation = .error .overflow := by
  obtain ⟨rfl, -, sound⟩ := keeps
  have summed : a.bands.mapM (·.sum s.bins) = .error .overflow :=
    Checked.mapM_word32 _ (·.energy s.bins) a.bands
      (fun band member => band.sum_eq_energy s.bins (sound.ordered band member)) beyond
  cases operation with
  | tick other =>
    cases asked
    rw [note, perform, tick, tickInto, summed]
    rfl
  | tickInto other collected =>
    cases asked
    rw [note, perform, tickInto, summed]
    rfl
  | setTuning tuning => cases asked
  | reset => cases asked

structure Relabelled (order : List Nat) (bands : List Band) (length : Nat) (a b : Aggregator) :
    Prop where
  placed : a.Placed bands length
  sums : a.sums.length = bands.length
  same : b = a.rearranged order

section
variable (permuted : order.Perm (List.range bands.length))
include permuted

theorem Relabelled.tick (relabelled : Relabelled order bands length a b)
    (few : bands.length ≤ UInt64.size) {operation : Operation}
    (asked : operation.spectrum? = some s) :
    Checked.Matched (fun x y => x.1.Relabels order y.1 ∧ Relabelled order bands length x.2 y.2)
      (a.note operation) (b.note operation) := by
  obtain ⟨placed, sums, rfl⟩ := relabelled
  have keeps := placed.keeps.rearranged permuted
  have table := arranged_perm permuted
  have size := length_order permuted
  by_cases fits : ∀ band ∈ bands, band.energy s.bins < UInt32.size
  · have next := placed.ticked fits
    rw [placed.keeps.note_eq fits asked,
      keeps.note_eq (fun band member => fits band (table.mem_iff.mp member)) asked]
    obtain ⟨rfl, whole, -⟩ := placed.keeps
    have moved : (a.rearranged order).ticked s = (a.ticked s).rearranged order :=
      ticked_rearranged permuted
    have ticks : Entry.ticks ⟨operation, .listed (operation.collected ++ a.onsets s),
        a.ticked s⟩ = true := by
      rw [Entry.ticks, asked]
      rfl
    refine ⟨⟨rfl, moved, ?_, ?_, ?_, ?_, fun _ => ⟨operation.collected, ?_, ?_⟩, ?_⟩,
      next, length_energies a s, moved⟩
    · exact (length_energies a s).trans size.symm
    · exact next.keeps.whole.trans size.symm
    · rw [Entry.added_listed asked, Entry.added_listed asked]
      exact onsets_rearranged permuted few
    · rw [Entry.added_listed asked, Entry.added_listed asked]
      refine ⟨onsets_ascending few, onsets_ascending ?_⟩
      exact ((length_arranged order a.bands).trans size).trans_le few
    · rw [Entry.added_listed asked]
    · rw [Entry.added_listed asked]
    · intro silent
      cases ticks.symm.trans silent
  · obtain ⟨band, member, beyond⟩ : ∃ band ∈ bands, UInt32.size ≤ band.energy s.bins := by
      simpa using fits
    rw [placed.keeps.note_overflow asked ⟨band, member, beyond⟩,
      keeps.note_overflow asked ⟨band, table.mem_iff.mpr member, beyond⟩]
    exact rfl

/-- An operation without a spectrum lists nothing and treats all bands alike. -/
theorem Relabelled.unheard (relabelled : Relabelled order bands length a b)
    (operation : Operation) (outcome : Outcome) (next : Aggregator)
    (changed : a.Changed operation next) (sums : next.sums.length = bands.length)
    (silent : operation.spectrum? = none) :
    Entry.Relabels order ⟨operation, outcome, next⟩ ⟨operation, outcome, next.rearranged order⟩ ∧
      Relabelled order bands length next (next.rearranged order) := by
  have placed := relabelled.placed.changed changed
  have size := length_order permuted
  have added (after : Aggregator) : Entry.added ⟨operation, outcome, after⟩ = [] := by
    cases operation with
    | tick s => cases silent
    | tickInto s collected => cases silent
    | setTuning tuning => rfl
    | reset => rfl
  refine ⟨⟨rfl, rfl, sums.trans size.symm, placed.keeps.whole.trans size.symm, ?_, ?_, ?_,
    fun _ => rfl⟩, placed, sums, rfl⟩
  · rw [added, added]
    exact .nil
  · rw [added, added]
    exact ⟨.nil, .nil⟩
  · intro ticks
    rw [Entry.ticks, silent] at ticks
    cases ticks

theorem Relabelled.note (relabelled : Relabelled order bands length a b)
    (few : bands.length ≤ UInt64.size) (operation : Operation) :
    Checked.Matched (fun x y => x.1.Relabels order y.1 ∧ Relabelled order bands length x.2 y.2)
      (a.note operation) (b.note operation) := by
  cases operation with
  | tick s => exact relabelled.tick permuted few rfl
  | tickInto s collected => exact relabelled.tick permuted few rfl
  | setTuning tuning =>
    have sums := relabelled.sums
    cases valid : tuning.validate with
    | error e =>
      have unheard := relabelled.unheard permuted (.setTuning tuning) (.refused e) a .refused sums rfl
      rw [← relabelled.same] at unheard
      simp only [Aggregator.note, perform, setTuning_error _ tuning e valid]
      exact unheard
    | ok done =>
      have unheard := relabelled.unheard permuted (.setTuning tuning) .done _ (.retuned valid) sums rfl
      obtain ⟨-, -, rfl⟩ := relabelled
      simp only [Aggregator.note, perform, setTuning_eq _ tuning valid]
      exact unheard
  | reset =>
    have sums : a.reset.sums.length = bands.length :=
      (List.length_map _).trans relabelled.sums
    have unheard := relabelled.unheard permuted .reset .done _ .reset sums rfl
    obtain ⟨placed, sums, rfl⟩ := relabelled
    have moved : (a.rearranged order).reset = a.reset.rearranged order := by
      rw [Aggregator.reset, rearranged, rearranged]
      simp only [Aggregator.reset]
      rw [arranged_map (by rwa [sums]), arranged_map (by rwa [placed.keeps.whole])]
    rw [Aggregator.note, Aggregator.note, perform, perform, moved]
    exact unheard

end

theorem validateBands_iff (bands : List Band) (length : Nat) :
    validateBands length 0 bands = .ok () ↔ ∀ band ∈ bands,
      band.startBin.toNat ≤ band.endBin.toNat ∧ band.endBin.toNat < length := by
  rw [← bandRules_hold, ← Rule.check_ok, check_bands]
  cases validateBands length 0 bands with
  | error e => simp [Except.mapError]
  | ok valid => simp [Except.mapError]

theorem configure_of_valid {tuning : Tuning} (some : bands ≠ [])
    (inside : ∀ band ∈ bands,
      band.startBin.toNat ≤ band.endBin.toNat ∧ band.endBin.toNat < length)
    (valid : tuning.Valid) :
    configure bands length tuning = .ok (fresh bands length tuning) := by
  have checked := (validateBands_iff bands length).mpr inside
  cases bands with
  | nil => exact absurd rfl some
  | cons band bands =>
    rw [configure, checked, valid]
    rfl

theorem configure_rearranged {tuning : Tuning}
    (configured : configure bands length tuning = .ok a)
    (permuted : order.Perm (List.range bands.length)) :
    configure (arranged order bands) length tuning = .ok (a.rearranged order) := by
  obtain ⟨ordered, valid, rfl⟩ := configure_success bands length tuning a configured
  have table := arranged_perm permuted
  have some : bands ≠ [] := by
    rintro rfl
    cases configured
  have moved : fresh (arranged order bands) length tuning =
      (fresh bands length tuning).rearranged order := by
    rw [fresh, ← arranged_map permuted]
    rfl
  rw [← moved]
  refine configure_of_valid ?_ (fun band member => ?_) valid
  · intro none
    rw [none] at table
    exact some table.nil_eq.symm
  · exact (validateBands_iff bands length).mp ordered band (table.mem_iff.mp member)

end

/-- The same bands in another order start an aggregator that takes every run as the first one
does. Sums and history are in the new order after every step, threshold, divisor and tuning are
the same, and the events are the same under the numbers that their bands had. -/
theorem band_order_labels {bands : List Band} {length : Nat} {tuning : Tuning} {a : Aggregator}
    (configured : configure bands length tuning = .ok a) (numbered : bands.length ≤ UInt64.size)
    (order : List Nat) (permuted : order.Perm (List.range bands.length)) :
    configure (arranged order bands) length tuning = .ok (a.rearranged order) ∧
      ∀ operations, ((∀ operation ∈ operations, operation.Fits bands) →
          ∃ log b, a.history operations = .ok (log, b)) ∧
        Checked.Matched
          (fun x y => List.Forall₂ (Entry.Relabels order) x.1 y.1 ∧ y.2 = x.2.rearranged order)
          (a.history operations) ((a.rearranged order).history operations) := by
  have keeps := (configure_keeps configured).1
  have sums : a.sums.length = bands.length := by
    obtain ⟨-, -, rfl⟩ := configure_success bands length tuning a configured
    exact List.length_map _
  have start : Relabelled order bands length a (a.rearranged order) :=
    ⟨configure_placed configured, sums, rfl⟩
  refine ⟨configure_rearranged configured permuted, fun operations =>
    ⟨history_success keeps numbered operations, ?_⟩⟩
  have runs := Checked.trace_matched note note (Relabelled order bands length)
    (Entry.Relabels order) (fun _ _ operation related => related.note permuted numbered operation)
    a (a.rearranged order) start operations
  exact runs.imp fun x y both => ⟨both.1, both.2.same⟩

theorem band_order_labels_of_rotated : ∃ a log b others,
    configure [⟨0, 1, 0⟩, ⟨2, 2, 0⟩, ⟨3, 3, 0⟩] 4 .standard = .ok a ∧
      a.history [.tick ⟨[100, 20, 50]⟩, .setTuning ⟨0, 1, 1, 1⟩, .tick ⟨[100, 20, 50, 9]⟩] =
        .ok (log, b) ∧
      (log.flatMap (·.added)).map (·.band) = [0, 1] ∧
      configure [⟨3, 3, 0⟩, ⟨0, 1, 0⟩, ⟨2, 2, 0⟩] 4 .standard = .ok (a.rearranged [2, 0, 1]) ∧
      (a.rearranged [2, 0, 1]).history
          [.tick ⟨[100, 20, 50]⟩, .setTuning ⟨0, 1, 1, 1⟩, .tick ⟨[100, 20, 50, 9]⟩] =
        .ok (others, b.rearranged [2, 0, 1]) ∧
      List.Forall₂ (Entry.Relabels [2, 0, 1]) log others := by
  obtain ⟨a, log, b, configured, ran, bands⟩ : ∃ a log b,
      configure [⟨0, 1, 0⟩, ⟨2, 2, 0⟩, ⟨3, 3, 0⟩] 4 .standard = .ok a ∧
      a.history [.tick ⟨[100, 20, 50]⟩, .setTuning ⟨0, 1, 1, 1⟩, .tick ⟨[100, 20, 50, 9]⟩] =
        .ok (log, b) ∧ (log.flatMap (·.added)).map (·.band) = [0, 1] := ⟨_, _, _, rfl, rfl, rfl⟩
  obtain ⟨rearranged, runs⟩ := band_order_labels configured (by decide) [2, 0, 1] (by decide)
  have matched := (runs
    [.tick ⟨[100, 20, 50]⟩, .setTuning ⟨0, 1, 1, 1⟩, .tick ⟨[100, 20, 50, 9]⟩]).2
  rw [ran] at matched
  rcases matched.cases with ⟨fault, failed, -⟩ | ⟨_, ⟨others, c⟩, same, also, entries, rfl⟩
  · cases failed
  · cases same
    exact ⟨a, log, b, others, configured, ran, bands, rearranged, also, entries⟩

end BandLight.Aggregator
