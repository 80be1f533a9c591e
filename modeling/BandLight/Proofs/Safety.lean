import BandLight.Proofs.PipelineHistory

/-! Freedom from faults. A started pipeline answers every step, with any
samples, bytes and tunings, as long as there are numbers for the blocks that it
analyses; a run of fewer actions than numbers has enough of them. -/
namespace BandLight.Pipeline

theorem run_of_trace (p : Pipeline) (steps : List Step) (reports : List Report) (q : Pipeline)
    (ran : p.trace (steps.map .step) = .ok (reports, q)) :
    p.run steps = reports.map fun report => .ok report.answer := by
  induction steps generalizing p reports with
  | nil =>
    cases ran
    rfl
  | cons s steps ih =>
    rw [List.map_cons] at ran
    obtain ⟨report, next, rest, acted, tail, rfl⟩ := Checked.trace_cons act _ _ _ _ _ ran
    have performed : p.perform s = .ok (report, next) := acted
    have stepped : p.step s = .ok (report.answer, next) := by
      rw [step, performed]
      rfl
    have later : Checked.answers step next steps = _ := ih next rest tail
    rw [run, Checked.answers, stepped, List.map_cons]
    simp only [later]

/-- No run of a started pipeline comes to a fault, and what its parts rely on
holds at the end of every run. -/
theorem run_never_faults {config : Config} {sink : Sink} {latency : Nat → Nat} {held : Bool}
    {p : Pipeline} (started : start config sink latency held = .ok p) (actions : List Action)
    (numbered : ¬ p.Exhausts actions) :
    (∃ reports q, p.trace actions = .ok (reports, q) ∧ reports.length = actions.length ∧ q.Sound) ∧
      ∀ steps, actions = steps.map .step →
        ∃ answers : List Answer, answers.length = steps.length ∧ p.run steps = answers.map .ok := by
  have fresh := start_fresh started
  rcases trace_complete fresh actions with exhausts | ⟨reports, q, ran⟩
  · exact absurd exhausts numbered
  · obtain ⟨blocks, history⟩ := trace_history fresh actions reports q ran
    have length : reports.length = actions.length := Checked.length_trace act _ _ _ _ ran
    refine ⟨⟨reports, q, ran, length, history.sound⟩, ?_⟩
    intro steps same
    subst same
    refine ⟨reports.map (·.answer), ?_, ?_⟩
    · rw [List.length_map, length, List.length_map]
    · rw [run_of_trace p steps reports q ran, List.map_map]
      rfl

/-- A long block that is analysed late, an odd byte and a tuning that would divide by zero. -/
theorem chord_run_never_faults : ∃ p, start twoBands .log (fun _ => 40000000) false = .ok p ∧
    ∃ answers : List Answer, answers.length = 8 ∧
      p.run [.driver (.deliver (chord ++ chord)), .host .tick, .driver (.deliverBytes [1, 2, 3]),
        .host (.setTuning ⟨0, 1, 1, 1⟩), .host .resetHistory, .host .tick, .driver .dropProducer,
        .host .shutdown] = answers.map .ok := by
  obtain ⟨p, started⟩ : ∃ p, start twoBands .log (fun _ => 40000000) false = .ok p := ⟨_, rfl⟩
  let steps : List Step := [.driver (.deliver (chord ++ chord)), .host .tick,
    .driver (.deliverBytes [1, 2, 3]), .host (.setTuning ⟨0, 1, 1, 1⟩), .host .resetHistory,
    .host .tick, .driver .dropProducer, .host .shutdown]
  have numbered := not_exhausts_of_length (start_fresh started) (steps.map .step) (by decide)
  exact ⟨p, started, (run_never_faults started _ numbered).2 steps rfl⟩

end BandLight.Pipeline
