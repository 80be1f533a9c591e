import BandLight.Proofs.SpectrumBounds

/-! The mailbox as a variable. However spectra are published, collected and
cleared, the mailbox answers like a variable that may hold one spectrum: what is
published replaces the content, and what is collected or cleared is gone. So a
collected spectrum is the one that was published last, and it is collected once. -/
namespace BandLight.Mailbox

inductive Operation
  | publish (s : Spectrum)
  | collect
  | collectInto (target : Spectrum)
  | isReady
  | clear
  deriving DecidableEq, Repr, Inhabited

inductive Outcome
  | done
  | collected (spectrum : Option Spectrum)
  /-- Whether a spectrum was claimed, and what the target holds afterwards. -/
  | claimed (successful : Bool) (target : Spectrum)
  | ready (answer : Bool)
  deriving DecidableEq, Repr, Inhabited

def perform (m : Mailbox) : Operation → Checked (Outcome × Mailbox)
  | .publish s => do
      let next ← m.publish s
      return (.done, next)
  | .collect =>
      let (spectrum, next) := m.collect
      .ok (.collected spectrum, next)
  | .collectInto target => do
      let (successful, target, next) ← m.collectInto target
      return (.claimed successful target, next)
  | .isReady => .ok (.ready m.isReady, m)
  | .clear => .ok (.done, m.clear)

def remember (stored : Option Spectrum) : Operation → Outcome × Option Spectrum
  | .publish s => (.done, some s)
  | .collect => (.collected stored, none)
  | .collectInto target => (.claimed stored.isSome (stored.getD target), none)
  | .isReady => (.ready stored.isSome, stored)
  | .clear => (.done, none)

structure Entry where
  operation : Operation
  outcome : Outcome
  deriving DecidableEq, Repr, Inhabited

namespace Entry

def published (entry : Entry) : Option Spectrum :=
  match entry.operation with
  | .publish s => some s
  | _ => none

def taken (entry : Entry) : Option Spectrum :=
  match entry.outcome with
  | .collected spectrum => spectrum
  | .claimed true target => some target
  | _ => none

def empties (entry : Entry) : Bool := entry.taken.isSome || entry.operation == .clear

def Quiet (entry : Entry) : Prop := entry.published = none ∧ entry.empties = false

end Entry

def note (m : Mailbox) (operation : Operation) : Checked (Entry × Mailbox) := do
  let (outcome, next) ← m.perform operation
  return (⟨operation, outcome⟩, next)

def history (m : Mailbox) (operations : List Operation) : Checked (List Entry × Mailbox) :=
  Checked.trace note m operations

def remembered : Option Spectrum → List Operation → List Entry × Option Spectrum
  | stored, [] => ([], stored)
  | stored, operation :: operations =>
      let (outcome, next) := remember stored operation
      let (log, last) := remembered next operations
      (⟨operation, outcome⟩ :: log, last)

/-- The hint tells the truth, and the variable has what waits. -/
structure Stands (m : Mailbox) (stored : Option Spectrum) : Prop where
  hint : m.hint = m.ready
  content : m.content = stored

theorem perform_stands {m : Mailbox} {stored : Option Spectrum} (stands : m.Stands stored)
    (operation : Operation) : ∃ next,
    m.perform operation = .ok ((remember stored operation).1, next) ∧
      next.Stands (remember stored operation).2 := by
  obtain ⟨hint, rfl⟩ := stands
  cases operation with
  | publish s =>
    refine ⟨holding s, ?_, rfl, rfl⟩
    rw [perform, publish_eq]
    rfl
  | collect =>
    rw [perform, collect_eq m hint]
    exact ⟨_, rfl, rfl, rfl⟩
  | collectInto target =>
    rw [perform, collectInto_eq m target hint]
    cases waiting : m.ready with
    | false =>
      have empty : m.content = none := by simp [content, waiting]
      rw [empty]
      exact ⟨m, rfl, hint, empty⟩
    | true =>
      have full : m.content = some m.slot := by simp [content, waiting]
      rw [full]
      exact ⟨_, rfl, rfl, rfl⟩
  | isReady =>
    refine ⟨m, congrArg (fun answer => Except.ok (Outcome.ready answer, m)) ?_, hint, rfl⟩
    rw [isReady, hint]
    cases waiting : m.ready <;> simp [content, waiting]
  | clear => exact ⟨m.clear, rfl, rfl, rfl⟩

theorem history_stands {m : Mailbox} {stored : Option Spectrum} (stands : m.Stands stored)
    (operations : List Operation) : ∃ last,
    m.history operations = .ok ((remembered stored operations).1, last) ∧
      last.Stands (remembered stored operations).2 := by
  induction operations generalizing m stored with
  | nil => exact ⟨m, rfl, stands⟩
  | cons operation operations ih =>
    obtain ⟨next, performed, later⟩ := perform_stands stands operation
    obtain ⟨last, rest, ends⟩ := ih later
    refine ⟨last, ?_, ends⟩
    have noted : m.note operation = .ok (⟨operation, (remember stored operation).1⟩, next) := by
      rw [note, performed]
      rfl
    rw [history, Checked.trace_cons_eq note _ _ _ _ _ noted]
    change (next.history operations).map _ = _
    rw [rest]
    rfl

/-- The last of some entries that changed the content published the spectrum. -/
def Waits (past : List Entry) (s : Spectrum) : Prop :=
  ∃ earlier middle, past = earlier ++ ⟨.publish s, .done⟩ :: middle ∧
    ∀ entry ∈ middle, entry.Quiet

theorem Waits.snoc {past : List Entry} {s : Spectrum} (waits : Waits past s) (entry : Entry)
    (quiet : entry.Quiet) : Waits (past ++ [entry]) s := by
  obtain ⟨earlier, middle, rfl, all⟩ := waits
  refine ⟨earlier, middle ++ [entry], by simp, ?_⟩
  intro other member
  rcases List.mem_append.mp member with inside | last
  · exact all other inside
  · rw [List.mem_singleton.mp last]
    exact quiet

theorem remember_waits {past : List Entry} {stored : Option Spectrum}
    (waits : ∀ s, stored = some s → Waits past s) (operation : Operation) (s : Spectrum)
    (later : (remember stored operation).2 = some s) :
    Waits (past ++ [⟨operation, (remember stored operation).1⟩]) s := by
  cases operation with
  | publish other =>
    cases later
    exact ⟨past, [], rfl, by simp⟩
  | isReady => exact (waits s later).snoc _ ⟨rfl, rfl⟩
  | collect | collectInto _ | clear => cases later

theorem taken_remember {stored : Option Spectrum} {operation : Operation} {s : Spectrum}
    (taken : Entry.taken ⟨operation, (remember stored operation).1⟩ = some s) :
    stored = some s := by
  cases operation with
  | collect => exact taken
  | collectInto target =>
    cases stored with
    | none => cases taken
    | some other => exact taken
  | publish _ | isReady | clear => cases taken

theorem remembered_waits {past : List Entry} {stored : Option Spectrum}
    (waits : ∀ s, stored = some s → Waits past s) (operations : List Operation)
    (before : List Entry) (entry : Entry) (after : List Entry) (s : Spectrum)
    (split : (remembered stored operations).1 = before ++ entry :: after)
    (taken : entry.taken = some s) : Waits (past ++ before) s := by
  induction operations generalizing past stored before with
  | nil => cases before <;> cases split
  | cons operation operations ih =>
    cases before with
    | nil =>
      obtain ⟨rfl, -⟩ := List.cons.inj split
      rw [List.append_nil]
      exact waits s (taken_remember taken)
    | cons first before =>
      obtain ⟨rfl, rest⟩ := List.cons.inj split
      have later := ih (remember_waits waits operation) before rest
      rwa [List.append_assoc] at later

/-- Behind an entry that leaves nothing, a spectrum waits that was published since. -/
theorem Waits.refilled {before middle : List Entry} {first : Entry} {s : Spectrum}
    (waits : Waits (before ++ first :: middle) s) (empties : first.empties = true) :
    ∃ entry ∈ middle, entry.published = some s := by
  obtain ⟨earlier, quiet, same, all⟩ := waits
  have loud : ¬ first.Quiet := by
    rintro ⟨-, none⟩
    rw [empties] at none
    cases none
  have other : first ≠ ⟨.publish s, .done⟩ := by
    rintro rfl
    cases empties
  rcases List.append_eq_append_iff.mp same with ⟨between, -, rest⟩ | ⟨between, -, rest⟩
  · cases between with
    | nil => exact absurd (List.cons.inj rest).1 other
    | cons entry between =>
      obtain ⟨rfl, rfl⟩ := List.cons.inj rest
      exact ⟨_, List.mem_append_right _ List.mem_cons_self, rfl⟩
  · cases between with
    | nil => exact absurd (List.cons.inj rest).1.symm other
    | cons entry between =>
      obtain ⟨rfl, rfl⟩ := List.cons.inj rest
      exact absurd (all first (List.mem_append_right _ List.mem_cons_self)) loud

structure LatestWins (log : List Entry) : Prop where
  /-- It is the spectrum that was published last, and nothing took it before. -/
  latest : ∀ before entry after s, log = before ++ entry :: after → entry.taken = some s →
    Waits before s
  /-- What was collected or cleared does not come again without being published again. -/
  once : ∀ before first middle second after s,
    log = before ++ first :: (middle ++ second :: after) → first.empties = true →
    second.taken = some s → ∃ entry ∈ middle, entry.published = some s

/-- A mailbox of any size answers every sequence of operations like a variable
that is empty at first, and holds what the variable holds. -/
theorem latest_wins (length : Nat) (operations : List Operation) :
    ∃ log m stored, (empty length).history operations = .ok (log, m) ∧
      remembered none operations = (log, stored) ∧ m.content = stored ∧ m.hint = m.ready ∧
      m.isReady = m.content.isSome ∧ LatestWins log := by
  have start : (empty length).Stands none := ⟨rfl, rfl⟩
  have nothing (s : Spectrum) (stored : none = some s) : Waits [] s := by cases stored
  obtain ⟨last, ran, stands⟩ := history_stands start operations
  have latest (before : List Entry) (entry : Entry) (after : List Entry) (s : Spectrum)
      (split : (remembered none operations).1 = before ++ entry :: after)
      (taken : entry.taken = some s) : Waits before s :=
    remembered_waits nothing operations before entry after s split taken
  refine ⟨(remembered none operations).1, last, (remembered none operations).2, ran, rfl,
    stands.content, stands.hint, ?_, latest, ?_⟩
  · rw [isReady, stands.hint, content]
    cases last.ready <;> rfl
  · intro before first middle second after s split empties taken
    have waits := latest (before ++ first :: middle) second after s (by simpa using split) taken
    exact waits.refilled empties

end BandLight.Mailbox
