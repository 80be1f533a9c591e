import BandLight.Proofs.PipelineMoves

/-! The log of a run: each action with its report and the pipeline before and
after it. A run has a log exactly when it has reports. Every entry of a log is an
action on a pipeline in order, so its moves lead from what was before it to what is
after it. -/
namespace BandLight.Pipeline

structure Entry where
  before : Pipeline
  action : Action
  report : Report
  after : Pipeline

def note (p : Pipeline) (action : Action) : Checked (Entry × Pipeline) := do
  let (report, after) ← p.act action
  return ({ before := p, action, report, after }, after)

def log (p : Pipeline) (actions : List Action) : Checked (List Entry × Pipeline) :=
  Checked.trace note p actions

/-- What moves show, one after the other, each in the pipeline that it meets. -/
def along {α : Type} (shows : Pipeline → Move → List α) : Pipeline → List Move → List α
  | _, [] => []
  | p, move :: moves => shows p move ++ along shows (p.move move) moves

namespace Entry

def moves (entry : Entry) : List Move := entry.action.moves entry.before.size entry.report

def along {α : Type} (shows : Pipeline → Move → List α) (entry : Entry) : List α :=
  Pipeline.along shows entry.before entry.moves

structure Made (entry : Entry) : Prop where
  order : entry.before.InOrder
  acted : entry.before.act entry.action = .ok (entry.report, entry.after)

theorem Made.moved {entry : Entry} (made : entry.Made) :
    Moves entry.before entry.moves entry.after :=
  act_moves made.order entry.action entry.report made.acted

end Entry

section
variable {p q r : Pipeline} {α : Type} {shows : Pipeline → Move → List α}

theorem Moves.along_append {first : List Move} (moves : Moves p first q) (second : List Move) :
    along shows p (first ++ second) = along shows p first ++ along shows q second := by
  induction moves with
  | nil => rfl
  | cons move moves order rest ih => simp [along, ih]

theorem along_eq_nil (moves : List Move) (silent : ∀ move ∈ moves, ∀ q, shows q move = []) :
    along shows p moves = [] := by
  induction moves generalizing p with
  | nil => rfl
  | cons move moves ih =>
    rw [along, silent move (by simp), ih fun other member => silent other (by simp [member])]
    rfl

/-- The same moves, made side by side from related pipelines, lead to related pipelines
and show the same, if every single move does. -/
theorem Moves.related {u v : Pipeline} (related : Pipeline → Pipeline → Prop)
    (shows : Pipeline → Move → List α) {moves : List Move} (moved : Moves p moves q)
    (also : Moves u moves v) (start : related p u)
    (kept : ∀ p u, p.InOrder → u.InOrder → related p u → ∀ move ∈ moves,
      related (p.move move) (u.move move) ∧ shows u move = shows p move) :
    related q v ∧ along shows u moves = along shows p moves := by
  induction moved generalizing u with
  | nil p =>
    cases also
    exact ⟨start, rfl⟩
  | cons move moves order rest ih =>
    cases also with
    | cons _ _ ordered further =>
      obtain ⟨next, shown⟩ := kept _ u order ordered start move (by simp)
      obtain ⟨last, others⟩ := ih further next fun p u order ordered holds other member =>
        kept p u order ordered holds other (by simp [member])
      exact ⟨last, by rw [along, along, shown, others]⟩

theorem note_act (action : Action) (report : Report) (acted : p.act action = .ok (report, q)) :
    p.note action = .ok ({ before := p, action, report, after := q }, q) := by
  rw [note, acted]
  rfl

theorem note_success (action : Action) (entry : Entry) (noted : p.note action = .ok (entry, q)) :
    entry.before = p ∧ entry.action = action ∧ entry.after = q ∧
      p.act action = .ok (entry.report, q) := by
  obtain ⟨⟨report, after⟩, acted, noted⟩ := Checked.bind_success _ _ _ noted
  cases noted
  exact ⟨rfl, rfl, rfl, acted⟩

theorem trace_eq_log (p : Pipeline) (actions : List Action) :
    p.trace actions = (p.log actions).map fun run => (run.1.map (·.report), run.2) := by
  induction actions generalizing p with
  | nil => rfl
  | cons action actions ih =>
    unfold log
    cases acted : p.act action with
    | error fault =>
      have noted : p.note action = .error fault := by
        rw [note, acted]
        rfl
      rw [Checked.trace_cons_error note _ _ _ _ noted]
      exact Checked.trace_cons_error act _ _ _ _ acted
    | ok run =>
      rw [trace_act p run.2 actions action run.1 acted, ih,
        Checked.trace_cons_eq note _ _ _ actions _ (note_act action run.1 acted), log]
      cases Checked.trace note run.2 actions <;> rfl

theorem log_complete (fresh : p.Fresh) (actions : List Action) :
    p.Exhausts actions ∨ ∃ entries q, p.log actions = .ok (entries, q) := by
  rcases trace_complete fresh actions with exhausts | ⟨reports, q, ran⟩
  · exact .inl exhausts
  · right
    rw [trace_eq_log] at ran
    cases logged : p.log actions with
    | error fault => rw [logged] at ran; cases ran
    | ok run => exact ⟨run.1, run.2, rfl⟩

theorem exhausts_of_fault (fresh : p.Fresh) (actions : List Action) (fault : Fault)
    (failed : p.log actions = .error fault) : p.Exhausts actions := by
  rcases log_complete fresh actions with exhausts | ⟨_, _, ran⟩
  · exact exhausts
  · rw [failed] at ran
    cases ran

/-- What holds at the start, and is kept by every action together with its entry,
holds at the end of a run. -/
theorem log_induction (P : List Entry → Pipeline → Prop) (order : p.InOrder) (initial : P [] p)
    (actions : List Action)
    (kept : ∀ entries entry, entry.Made → entry.action ∈ actions → P entries entry.before →
      P (entries ++ [entry]) entry.after)
    (entries : List Entry) (ran : p.log actions = .ok (entries, q)) : q.InOrder ∧ P entries q := by
  -- The last action is split off, so that the shorter run has led to what it meets.
  induction actions using List.reverseRecOn generalizing entries q with
  | nil =>
    cases ran
    exact ⟨order, initial⟩
  | append_singleton actions action ih =>
    obtain ⟨before, middle, entry, head, noted, rfl⟩ := Checked.trace_snoc note _ _ _ _ _ ran
    obtain ⟨sane, holds⟩ := ih (fun entries entry made member =>
      kept entries entry made (by simp [member])) before head
    obtain ⟨rfl, rfl, rfl, acted⟩ := note_success action entry noted
    exact ⟨sane.act entry.action entry.report acted, kept before entry ⟨sane, acted⟩ (by simp) holds⟩

theorem log_actions (actions : List Action) (entries : List Entry)
    (ran : p.log actions = .ok (entries, q)) : entries.map (·.action) = actions := by
  induction actions generalizing p entries with
  | nil =>
    cases ran
    rfl
  | cons action actions ih =>
    obtain ⟨entry, next, rest, noted, tail, rfl⟩ := Checked.trace_cons note _ _ _ _ _ ran
    rw [List.map_cons, (note_success action entry noted).2.1, ih rest tail]

theorem log_made (order : p.InOrder) (actions : List Action) (entries : List Entry)
    (ran : p.log actions = .ok (entries, q)) : ∀ entry ∈ entries, entry.Made := by
  refine (log_induction (fun entries _ => ∀ entry ∈ entries, entry.Made) order (by simp) actions ?_
    entries ran).2
  intro entries entry made _ others other member
  rcases List.mem_append.mp member with earlier | last
  · exact others other earlier
  · rw [List.mem_singleton.mp last]
    exact made

end

end BandLight.Pipeline
