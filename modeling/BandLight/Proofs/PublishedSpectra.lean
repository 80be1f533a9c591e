import BandLight.Proofs.AnalyzerRuns

/-! What an analyzer publishes. Whatever a driver has done before, a release
publishes the spectrum of the most recent samples of all blocks that were
released since the last reset, its own block included. Stale releases show
nothing, and resetting the ring forgets what was not released but leaves the
window as it was. -/
namespace BandLight.Analyzer

theorem Published.spectrum {size : Nat} {past : List Sample} {analyses : List Analysis}
    (published : Published size past analyses) (before : List Analysis) (analysis : Analysis)
    (after : List Analysis) (same : analyses = before ++ analysis :: after) :
    analysis.spectrum = Transform.spectrumOf
      (Transform.recent size (past ++ before.flatMap (·.block) ++ analysis.block)) := by
  subst same
  induction before generalizing past with
  | nil => simpa using published.1
  | cons first before ih =>
    have rest := ih published.2
    simpa using rest

/-- What the operations on an analyzer show of the blocks that were released. -/
structure Shows (size : Nat) (past : List (List Sample)) (b : Analyzer) : Prop where
  window : b.transform.window = Transform.recent size past.flatten
  counted : b.blocksAnalyzed = past.length
  spectrum : ∀ operation outcome c, b.perform operation = .ok (outcome, c) →
    ∀ before analysis after, outcome.analyses = before ++ analysis :: after →
      analysis.spectrum = Transform.spectrumOf (Transform.recent size
        (past.flatten ++ before.flatMap (·.block) ++ analysis.block))
  waiting : ∀ operation outcome c, b.perform operation = .ok (outcome, c) →
    c.mailbox.content =
      (outcome.analyses.getLast?.map (·.spectrum)).or (b.waiting operation)
  conserved : ∀ operation outcome c, b.perform operation = .ok (outcome, c) →
    outcome.analyses.flatMap (·.block) ++ c.unreleased = b.written operation
  /-- A release of the active block is the analysis of all that it holds. -/
  active : b.blocksAnalyzed + 1 < UInt64.size → ∃ analysis c,
    b.perform (.release b.ring.active) = .ok (.released (some analysis), c) ∧
      analysis.block = b.unreleased ∧ c.ring.block b.ring.active = .ok analysis.block ∧
      c.mailbox.content = some analysis.spectrum ∧ c.blocksAnalyzed = b.blocksAnalyzed + 1
  stale : ∀ id, id ≠ b.ring.active → b.perform (.release id) = .ok (.released none, b)
  ringReset : ∃ ring, b.perform .resetRing = .ok (.done, { b with ring }) ∧
    unreleased { b with ring } = []

section
variable {a b : Analyzer} {size : Nat} {operations : List Operation} {outcomes : List Outcome}

theorem History.shows (history : History size operations outcomes b) :
    Shows size (released operations outcomes) b := by
  have each (operation : Operation) (outcome : Outcome) (c : Analyzer)
      (performed : b.perform operation = .ok (outcome, c)) : Performed size b operation outcome c :=
    (performed_of_perform history.sound history.fewer operation outcome c performed).1
  refine ⟨history.window, history.counted, ?_, ?_, ?_, ?_, ?_, ?_⟩
  · intro operation outcome c performed before analysis after same
    obtain ⟨published, _⟩ := (each operation outcome c performed).published _ history.window
    exact published.spectrum before analysis after same
  · exact fun operation outcome c performed => (each operation outcome c performed).mailbox
  · exact fun operation outcome c performed => (each operation outcome c performed).conserved
  · intro unspent
    have analyzes := analyzed_analyzes history.sound
    refine ⟨b.analyzed.1, b.analyzed.2, ?_, rfl, Ring.block_swap history.sound.ring,
      analyzes.mailbox, analyzes.counted⟩
    rw [perform, release_active history.sound, if_pos (by exact unspent)]
    rfl
  · intro id stale
    rw [perform, release_stale b id stale]
    rfl
  · exact ⟨b.ring.reset, rfl, unreleased_of_empty (a := { b with ring := b.ring.reset }) rfl⟩

end

/-- After any operations in any order, a release publishes the spectrum of the
last samples of all blocks that were released since the last reset. -/
theorem publishes_recent_samples {size : Nat} {a : Analyzer} (configured : configure size = .ok a)
    (operations : List Operation) :
    a.Exhausts operations ∨ ∃ outcomes b, a.trace operations = .ok (outcomes, b) ∧
      Shows size (released operations outcomes) b := by
  rcases trace_complete configured operations with exhausts | ⟨outcomes, b, ran⟩
  · exact .inl exhausts
  · exact .inr ⟨outcomes, b, ran, (trace_history configured operations outcomes ran).shows⟩

theorem publishes_recent_short_blocks : ∃ a outcomes b, configure 32 = .ok a ∧
    a.trace [.fill [1200, -700], .release .a, .writeActive [3], .release .a, .resetRing] =
      .ok (outcomes, b) ∧
    Shows 32 (released
      [.fill [1200, -700], .release .a, .writeActive [3], .release .a, .resetRing] outcomes) b := by
  obtain ⟨a, configured⟩ : ∃ a, configure 32 = .ok a := ⟨_, rfl⟩
  rcases publishes_recent_samples configured
      [.fill [1200, -700], .release .a, .writeActive [3], .release .a, .resetRing] with
    exhausts | ⟨outcomes, b, ran, shows⟩
  · exact absurd exhausts (not_exhausts_of_most configured _ (by decide))
  · exact ⟨a, outcomes, b, configured, ran, shows⟩

end BandLight.Analyzer
