import BandLight.Proofs.AnalyzerRuns
import BandLight.Proofs.BandOrder
import BandLight.Proofs.RingRuns
import BandLight.Proofs.WorkingBuffers

/-! A reset leaves what a configuration would make. Ring, transform and aggregator are reset to the
very state that they were configured in. An analyzer keeps the spectrum that its analyses are
written over, and an engine its working buffers; no later operation shows any of them. -/
namespace BandLight

theorem Ring.Sound.reset_eq {size : Nat} {ring : Ring} (sound : ring.Sound size) :
    ring.reset =
      { blockA := .zeroed size, blockB := .zeroed size, active := .a, blockSize := size } := by
  have first : ring.blockA.slots.length = size := sound.slots .a
  have second : ring.blockB.slots.length = size := sound.slots .b
  simp only [Ring.reset, List.map_const', first, second, sound.blockSize]
  rfl

theorem Ring.Reached.reset {memory size : Nat} {ring : Ring}
    (reached : Ring.Reached memory size ring) : Ring.configure memory size = .ok ring.reset := by
  have sound := reached.sound
  obtain ⟨first, -, -, configured, -⟩ := reached
  rw [configured, sound.reset_eq, Ring.configure_success configured]

def Transform.Reached (size : Nat) (t : Transform) : Prop :=
  ∃ first operations answers, Transform.configure size = .ok first ∧
    first.run operations = .ok (answers, t)

theorem Transform.configure_reset {t : Transform} (fits : t.window.length = t.blockSize)
    (supported : validateBlockSize t.blockSize = .ok ()) :
    Transform.configure t.blockSize = .ok t.reset := by
  rw [configure, supported, reset, List.map_const', fits]
  rfl

theorem Transform.Reached.reset {size : Nat} {t : Transform} (reached : Transform.Reached size t) :
    Transform.configure size = .ok t.reset := by
  obtain ⟨first, operations, answers, configured, ran⟩ := reached
  obtain ⟨supported, rfl⟩ := Transform.configure_recalling configured
  rw [Transform.run_recalling supported] at ran
  cases ran
  rw [configured, Transform.reset_recalling]

namespace Engine

variable {α : Type} {p : Processor α} {e : Engine α} {size : Nat}

def Reached (p : Processor α) (size : Nat) (e : Engine α) : Prop :=
  ∃ first operations answers, configure p size = .ok first ∧
    first.run p operations = .ok (answers, e)

theorem Reached.reset_window (reached : Reached p size e) :
    e.reset.Sound p ∧ Transform.configure size = .ok e.reset.transform := by
  obtain ⟨first, before, answers, configured, ran⟩ := reached
  obtain ⟨initial, window⟩ := configure_sound configured
  obtain ⟨sound, same⟩ := run_sound initial ran
  obtain ⟨-, recalls⟩ := Transform.configure_recalling window
  have size_eq : e.transform.blockSize = size := by rw [same, recalls, Transform.recalling]
  have reset := Transform.configure_reset sound.window sound.supported
  rw [size_eq] at reset
  exact ⟨sound.next .reset, reset⟩

theorem Reached.reset (reached : Reached p size e) :
    ∃ fresh, configure p size = .ok fresh ∧ ∀ operations, ∃ answers last final,
      e.reset.run p operations = .ok (answers, last) ∧
      fresh.run p operations = .ok (answers, final) ∧ last.transform = final.transform := by
  obtain ⟨kept, window⟩ := reached.reset_window
  obtain ⟨fresh, -, -, configured, -⟩ := reached
  obtain ⟨sound, same⟩ := configure_sound configured
  have silent : e.reset.transform = fresh.transform := Except.ok.inj (window.symm.trans same)
  exact ⟨fresh, configured, run_alike kept sound silent⟩

theorem Reached.reset_computes (reached : Reached p size e) (computes : p.Computes) :
    ∃ t, Transform.configure size = .ok t ∧ ∀ operations, ∃ answers last,
      e.reset.run p operations = .ok (answers, last) ∧
      t.run operations = .ok (answers, last.transform) := by
  obtain ⟨kept, window⟩ := reached.reset_window
  exact ⟨e.reset.transform, window, run_eq_transform computes kept⟩

end Engine

namespace Analyzer

/-- Two analyzers that differ in nothing but the spectrum that analyses are written over. -/
structure Alike (a b : Analyzer) : Prop where
  ring : a.ring = b.ring
  transform : a.transform = b.transform
  mailbox : a.mailbox = b.mailbox
  blocksAnalyzed : a.blocksAnalyzed = b.blocksAnalyzed

/-- Alike, with a window that is as long as it should be. -/
structure Steady (a b : Analyzer) : Prop where
  alike : a.Alike b
  supported : validateBlockSize a.transform.blockSize = .ok ()
  window : a.transform.window.length = a.transform.blockSize

section
variable {a b : Analyzer}

theorem Steady.with_ring (steady : a.Steady b) (ring : Ring) :
    Steady { a with ring } { b with ring } :=
  ⟨⟨rfl, steady.alike.transform, steady.alike.mailbox, steady.alike.blocksAnalyzed⟩,
    steady.supported, steady.window⟩

theorem Steady.with_mailbox (steady : a.Steady b) (mailbox : Mailbox) :
    Steady { a with mailbox } { b with mailbox } :=
  ⟨⟨steady.alike.ring, steady.alike.transform, rfl, steady.alike.blocksAnalyzed⟩,
    steady.supported, steady.window⟩

theorem Steady.release (steady : a.Steady b) (id : BlockId) :
    Checked.Matched (fun x y => x.1 = y.1 ∧ x.2.Steady y.2) (a.release id) (b.release id) := by
  obtain ⟨⟨ring, transform, mailbox, count⟩, supported, window⟩ := steady
  rw [Analyzer.release, Analyzer.release, ← ring, ← transform, ← mailbox, ← count]
  cases a.ring.release id with
  | mk named swapped =>
    cases named with
    | none => exact ⟨rfl, ⟨ring, transform, mailbox, count⟩, supported, window⟩
    | some id =>
      refine (Checked.matched_self (swapped.block id)).bind _ _ ?_
      rintro block _ rfl
      simp only [Transform.analyzeInto_eq window supported, Checked.ok_bind, Mailbox.publish_eq]
      refine (Checked.matched_self _).bind _ _ ?_
      rintro counted _ rfl
      refine ⟨rfl, ⟨rfl, rfl, rfl, rfl⟩, supported, ?_⟩
      exact Transform.length_window_slid window block

theorem Steady.pushOnce (steady : a.Steady b) (samples : List Sample) :
    Checked.Matched (fun x y => x.1 = y.1 ∧ x.2.1 = y.2.1 ∧ x.2.2.Steady y.2.2)
      (a.pushOnce samples) (b.pushOnce samples) := by
  rw [Analyzer.pushOnce, Analyzer.pushOnce, ← steady.alike.ring]
  refine (Checked.matched_self (a.ring.fill samples)).bind _ _ ?_
  rintro ⟨accepted, ring⟩ _ rfl
  have filled := steady.with_ring ring
  refine (Checked.matched_self (Checked.slice samples accepted samples.length)).bind _ _ ?_
  rintro rest _ rfl
  refine Checked.Matched.ite _ ?_ ?_
  · refine (filled.release ring.active).bind _ _ ?_
    rintro ⟨analysis, next⟩ ⟨other, after⟩ ⟨rfl, later⟩
    exact ⟨rfl, rfl, later⟩
  · exact ⟨rfl, rfl, filled⟩

theorem Steady.pushRounds (steady : a.Steady b) (rounds : Nat) (samples : List Sample) :
    Checked.Matched (fun x y => x.1 = y.1 ∧ x.2.Steady y.2)
      (a.pushRounds rounds samples) (b.pushRounds rounds samples) := by
  induction rounds generalizing a b samples with
  | zero =>
    cases samples with
    | nil => exact ⟨rfl, steady⟩
    | cons sample samples => exact rfl
  | succ rounds ih =>
    cases samples with
    | nil => exact ⟨rfl, steady⟩
    | cons sample samples =>
      refine (steady.pushOnce (sample :: samples)).bind _ _ ?_
      rintro ⟨first, rest, next⟩ ⟨_, _, after⟩ ⟨rfl, rfl, later⟩
      refine (ih later rest).bind _ _ ?_
      rintro ⟨others, last⟩ ⟨_, final⟩ ⟨rfl, kept⟩
      exact ⟨rfl, kept⟩

theorem Steady.perform (steady : a.Steady b) (operation : Operation) :
    Checked.Matched (fun x y => x.1 = y.1 ∧ x.2.Steady y.2)
      (a.perform operation) (b.perform operation) := by
  have ring := steady.alike.ring
  have mailbox := steady.alike.mailbox
  cases operation with
  | fill samples =>
    rw [Analyzer.perform, Analyzer.perform, ← ring]
    refine (Checked.matched_self (a.ring.fill samples)).bind _ _ ?_
    rintro filled _ rfl
    exact ⟨rfl, steady.with_ring filled.2⟩
  | fillBytes bytes =>
    rw [Analyzer.perform, Analyzer.perform, ← ring]
    refine (Checked.matched_self (a.ring.fillBytes bytes)).bind _ _ ?_
    rintro filled _ rfl
    exact ⟨rfl, steady.with_ring filled.2⟩
  | writeActive samples =>
    rw [Analyzer.perform, Analyzer.perform, ← ring]
    exact ⟨rfl, steady.with_ring _⟩
  | push samples =>
    refine (steady.pushRounds _ samples).bind _ _ ?_
    rintro ⟨analyses, next⟩ ⟨_, after⟩ ⟨rfl, later⟩
    exact ⟨rfl, later⟩
  | release id =>
    refine (steady.release id).bind _ _ ?_
    rintro ⟨analysis, next⟩ ⟨_, after⟩ ⟨rfl, later⟩
    exact ⟨rfl, later⟩
  | collect =>
    rw [Analyzer.perform, Analyzer.perform, ← mailbox]
    exact ⟨rfl, steady.with_mailbox _⟩
  | clearMailbox =>
    rw [Analyzer.perform, Analyzer.perform, ← mailbox]
    exact ⟨rfl, steady.with_mailbox _⟩
  | resetRing =>
    rw [Analyzer.perform, Analyzer.perform, ← ring]
    exact ⟨rfl, steady.with_ring _⟩
  | reset =>
    refine ⟨rfl, ⟨congrArg Ring.reset ring, congrArg Transform.reset steady.alike.transform,
      congrArg Mailbox.clear mailbox, rfl⟩, steady.supported, ?_⟩
    exact (List.length_map _).trans steady.window

theorem Reached.reset_steady {size : Nat} {fresh : Analyzer} (reached : Reached size a)
    (configured : configure size = .ok fresh) : a.reset.Steady fresh := by
  obtain ⟨sound, -⟩ := reached.sound
  obtain ⟨-, rfl⟩ := configure_success size fresh configured
  refine ⟨⟨sound.ring.reset_eq, ?_, ?_, rfl⟩, ?_, ?_⟩
  · change Transform.mk a.transform.blockSize (a.transform.window.map fun _ => 0) = _
    rw [List.map_const', sound.window, sound.blockSize]
  · change Mailbox.mk ⟨a.mailbox.slot.bins.map fun _ => 0⟩ false false = _
    rw [List.map_const', sound.mailbox.slot.length_eq]
    rfl
  · change validateBlockSize a.transform.blockSize = .ok ()
    rw [sound.blockSize, sound.supported]
  · exact (List.length_map _).trans (sound.window.trans sound.blockSize.symm)

theorem Reached.reset {size : Nat} (reached : Reached size a) :
    ∃ fresh, configure size = .ok fresh ∧ ∀ operations,
      Checked.Matched (fun x y => x.1 = y.1 ∧ x.2.Alike y.2)
        (a.reset.trace operations) (fresh.trace operations) := by
  have ⟨fresh, _, _, configured, _⟩ := reached
  refine ⟨fresh, configured, fun operations => ?_⟩
  have runs := Checked.trace_matched perform perform Steady Eq
    (fun _ _ operation steady => steady.perform operation) a.reset fresh
    (reached.reset_steady configured) operations
  exact runs.imp fun x y both => ⟨List.forall₂_eq_eq_eq.le _ _ both.1, both.2.alike⟩

end

end Analyzer

namespace Aggregator

variable {a : Aggregator} {bands : List Band} {length : Nat}

theorem Reachable.length_sums (reached : a.Reachable bands length) : a.sums.length = bands.length := by
  obtain ⟨tuning, start, operations, log, configured, ran⟩ := reached
  have begins : start.Placed bands length ∧ start.sums.length = bands.length := by
    refine ⟨configure_placed configured, ?_⟩
    obtain ⟨-, -, rfl⟩ := configure_success bands length tuning start configured
    exact List.length_map _
  refine (Checked.trace_induction note
    (fun _ _ b => b.Placed bands length ∧ b.sums.length = bands.length) start begins ?_
    operations log a ran).2
  intro _ _ before operation entry after _ ⟨placed, sums⟩ noted
  obtain ⟨-, -, changed, next⟩ := placed.note noted
  refine ⟨next, ?_⟩
  cases changed with
  | ticked _ _ => exact (length_energies before _).trans (congrArg List.length placed.keeps.table)
  | retuned _ => exact sums
  | refused => exact sums
  | reset => exact (List.length_map _).trans sums

theorem Reachable.reset (reached : a.Reachable bands length) :
    configure bands length a.tuning = .ok a.reset := by
  have placed := reached.placed
  have sums := reached.length_sums
  obtain ⟨tuning, start, -, -, configured, -⟩ := reached
  obtain ⟨ordered, -, -⟩ := configure_success bands length tuning start configured
  have some : bands ≠ [] := by
    rintro rfl
    cases configured
  rw [configure_of_valid some ((validateBands_iff bands length).mp ordered) placed.keeps.sound.tuning]
  rw [fresh, Aggregator.reset, List.map_const', List.map_const', List.map_const', sums,
    placed.keeps.whole, placed.keeps.table, placed.spectrumLength]

end Aggregator

/-- What has led to a reset makes no difference afterwards: it leaves the very state of a fresh
configuration, or one that no run of operations can tell from it. -/
structure ResetsForget (size : Nat) : Prop where
  ring : ∀ memory ring, Ring.Reached memory size ring →
    Ring.configure memory size = .ok ring.reset
  transform : ∀ t, Transform.Reached size t → Transform.configure size = .ok t.reset
  /-- The working buffers stay, and no answer shows them. -/
  engine : ∀ {α : Type} (p : Processor α) (e : Engine α), Engine.Reached p size e →
    ∃ fresh, Engine.configure p size = .ok fresh ∧ ∀ operations, ∃ answers last final,
      e.reset.run p operations = .ok (answers, last) ∧
      fresh.run p operations = .ok (answers, final) ∧ last.transform = final.transform
  /-- Where the Fourier transform is exact, the answers are those of a fresh transform. -/
  computed : ∀ {α : Type} (p : Processor α) (e : Engine α), Engine.Reached p size e → p.Computes →
    ∃ t, Transform.configure size = .ok t ∧ ∀ operations, ∃ answers last,
      e.reset.run p operations = .ok (answers, last) ∧
      t.run operations = .ok (answers, last.transform)
  /-- The spectrum at hand stays; outcomes and faults of every run are the same, and ring, window,
  mailbox and count after it. -/
  analyzer : ∀ a, Analyzer.Reached size a →
    ∃ fresh, Analyzer.configure size = .ok fresh ∧ ∀ operations,
      Checked.Matched (fun x y => x.1 = y.1 ∧ x.2.Alike y.2)
        (a.reset.trace operations) (fresh.trace operations)
  /-- For spectra of this length, with the tuning in force. -/
  aggregator : ∀ (a : Aggregator) (bands : List Band), a.Reachable bands size →
    Aggregator.configure bands size a.tuning = .ok a.reset

theorem resets_forget (size : Nat) : ResetsForget size where
  ring _ _ reached := reached.reset
  transform _ reached := reached.reset
  engine _ _ reached := reached.reset
  computed _ _ reached := reached.reset_computes
  analyzer _ reached := reached.reset
  aggregator _ _ reached := reached.reset

theorem resets_forget_after_use :
    (∃ ring, Ring.Reached 64 32 ring ∧ ring.activeFill = 2 ∧
      Ring.configure 64 32 = .ok ring.reset) ∧
    (∃ t, Transform.Reached 32 t ∧ t.window.getLast? = some 7 ∧
      Transform.configure 32 = .ok t.reset) ∧
    (∃ e fresh, Engine.Reached .exact 32 e ∧ e.scratch.getLast? = some 7 ∧
      Engine.configure .exact 32 = .ok fresh ∧
      ∃ t answers last final other, Transform.configure 32 = .ok t ∧
        e.reset.run .exact [.analyze [5]] = .ok (answers, last) ∧
        fresh.run .exact [.analyze [5]] = .ok (answers, final) ∧
        t.run [.analyze [5]] = .ok (answers, other)) ∧
    (∃ a fresh, Analyzer.Reached 32 a ∧ a.blocksAnalyzed = 1 ∧ Analyzer.configure 32 = .ok fresh ∧
      Checked.Matched (fun x y => x.1 = y.1 ∧ x.2.Alike y.2)
        (a.reset.trace [.collect, .writeActive [1]]) (fresh.trace [.collect, .writeActive [1]])) ∧
    ∃ g : Aggregator, g.Reachable [⟨0, 1, 0⟩] 32 ∧ g.sums = [120] ∧
      Aggregator.configure [⟨0, 1, 0⟩] 32 g.tuning = .ok g.reset := by
  have forget := resets_forget 32
  refine ⟨?_, ?_, ?_, ?_, ?_⟩
  · obtain ⟨ring, reached, fill⟩ : ∃ ring, Ring.Reached 64 32 ring ∧ ring.activeFill = 2 :=
      ⟨_, ⟨_, [.fill [3, 4]], _, rfl, rfl⟩, rfl⟩
    exact ⟨ring, reached, fill, forget.ring 64 ring reached⟩
  · obtain ⟨t, reached, last⟩ : ∃ t, Transform.Reached 32 t ∧ t.window.getLast? = some 7 :=
      ⟨_, ⟨_, [.analyze [6, 7]], _, rfl, rfl⟩, rfl⟩
    exact ⟨t, reached, last, forget.transform t reached⟩
  · obtain ⟨e, reached, last⟩ : ∃ e, Engine.Reached .exact 32 e ∧ e.scratch.getLast? = some 7 := by
      refine ⟨_, ⟨_, [.analyze [6, 7]], _, rfl, rfl⟩, ?_⟩
      have seven : (7 : Sample).toInt = 7 := rfl
      change some ((7 : Sample).toInt : ℂ) = some 7
      rw [seven]
      norm_num
    obtain ⟨fresh, configured, same⟩ := forget.engine .exact e reached
    obtain ⟨t, window, computed⟩ := forget.computed .exact e reached Processor.exact_computes
    obtain ⟨answers, after, final, ran, again, -⟩ := same [.analyze [5]]
    obtain ⟨others, _, went, plain⟩ := computed [.analyze [5]]
    cases ran.symm.trans went
    exact ⟨e, fresh, reached, last, configured, t, answers, after, final, _, window, ran, again,
      plain⟩
  · obtain ⟨first, configured⟩ : ∃ first, Analyzer.configure 32 = .ok first := ⟨_, rfl⟩
    obtain ⟨sound, -, zero⟩ := Analyzer.configure_sound 32 first configured
    obtain ⟨-, shape⟩ := Analyzer.configure_success 32 first configured
    have due : first.due (.release .a) = 1 := by rw [shape]; rfl
    obtain ⟨outcome, a, performed, made⟩ := Analyzer.perform_performed sound (.release .a)
      (by rw [zero, due]; decide)
    have ran : first.trace [.release .a] = .ok ([outcome], a) :=
      Checked.trace_cons_eq Analyzer.perform _ _ _ _ _ performed
    have counted := made.counted
    rw [made.due, due, zero] at counted
    obtain ⟨fresh, again, same⟩ := forget.analyzer a ⟨first, _, _, configured, ran⟩
    exact ⟨a, fresh, ⟨first, _, _, configured, ran⟩, counted, again, same _⟩
  · obtain ⟨g, reached, sums⟩ : ∃ g : Aggregator, g.Reachable [⟨0, 1, 0⟩] 32 ∧ g.sums = [120] :=
      ⟨_, ⟨.standard, _, [.tick ⟨[100, 20]⟩], _, rfl, rfl⟩, rfl⟩
    exact ⟨g, reached, sums, forget.aggregator g _ reached⟩

end BandLight
