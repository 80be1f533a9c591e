import BandLight.Fault
import Mathlib.Data.List.Induction

/-! Runs of checked steps. A run stops at the first fault; otherwise it has an
answer for every input and a last state. What one step keeps, a run keeps. -/
namespace BandLight.Checked

section
variable {α β σ ι : Type}

@[simp] theorem ok_bind (value : α) (next : α → Checked β) :
    (Except.ok value >>= next) = next value := rfl

@[simp] theorem error_bind (fault : Fault) (next : α → Checked β) :
    ((Except.error fault : Checked α) >>= next) = .error fault := rfl

@[simp] theorem pure_eq (value : α) : (pure value : Checked α) = .ok value := rfl

theorem ite_bind (condition : Prop) [Decidable condition] (value : α) (fault : Fault)
    (next : α → Checked β) :
    ((if condition then .ok value else .error fault : Checked α) >>= next) =
      if condition then next value else .error fault := by
  split
  · rfl
  · rfl

theorem bind_success (first : Checked α) (next : α → Checked β) (result : β)
    (ok : (first >>= next) = .ok result) :
    ∃ value, first = .ok value ∧ next value = .ok result := by
  cases first with
  | error fault => cases ok
  | ok value => exact ⟨value, rfl, ok⟩

theorem below_success (limit value result : Nat) (ok : below limit value = .ok result) :
    result = value ∧ value < limit := by
  unfold below at ok
  split at ok
  · next small => exact ⟨(Except.ok.inj ok).symm, small⟩
  · cases ok

theorem below_ok_iff (limit value result : Nat) :
    below limit value = .ok result ↔ result = value ∧ value < limit := by
  constructor
  · exact below_success _ _ _
  · rintro ⟨rfl, small⟩
    exact below_ok small

theorem below_error_iff (limit value : Nat) (fault : Fault) :
    below limit value = .error fault ↔ fault = .overflow ∧ limit ≤ value := by
  unfold below
  split
  · next small =>
    constructor
    · rintro ⟨⟩
    · rintro ⟨-, large⟩
      omega
  · next large =>
    constructor
    · rintro ⟨⟩
      exact ⟨rfl, Nat.not_lt.mp large⟩
    · rintro ⟨rfl, -⟩
      rfl

theorem mapM_success (f : α → Checked β) (P : β → Prop) (items : List α)
    (each : ∀ item ∈ items, ∃ result, f item = .ok result ∧ P result) :
    ∃ results, items.mapM f = .ok results ∧ ∀ result ∈ results, P result := by
  induction items with
  | nil => exact ⟨[], rfl, by simp⟩
  | cons item items ih =>
    obtain ⟨result, computed, holds⟩ := each item (by simp)
    obtain ⟨results, rest, all⟩ := ih (fun x member => each x (by simp [member]))
    refine ⟨result :: results, ?_, ?_⟩
    · rw [List.mapM_cons, computed, ok_bind, rest]
      rfl
    · intro x member
      rcases List.mem_cons.mp member with rfl | inside
      · exact holds
      · exact all x inside

theorem mapM_eq_map (f : α → Checked β) (g : α → β) (items : List α)
    (each : ∀ item ∈ items, f item = .ok (g item)) : items.mapM f = .ok (items.map g) := by
  induction items with
  | nil => rfl
  | cons item items ih =>
    rw [List.mapM_cons, each item (by simp), ok_bind, ih fun x member => each x (by simp [member])]
    rfl

theorem mapM_congr (f g : α → Checked β) (items : List α) (same : ∀ item ∈ items, f item = g item) :
    items.mapM f = items.mapM g := by
  induction items with
  | nil => rfl
  | cons item items ih =>
    rw [List.mapM_cons, List.mapM_cons, same item (by simp),
      ih fun x member => same x (by simp [member])]

theorem mapM_word32 (f : α → Checked Nat) (g : α → Nat) (items : List α)
    (each : ∀ item ∈ items, f item = word32 (g item))
    (beyond : ∃ item ∈ items, UInt32.size ≤ g item) : items.mapM f = .error .overflow := by
  induction items with
  | nil => simp at beyond
  | cons item items ih =>
    rw [List.mapM_cons, each item (by simp)]
    by_cases small : g item < UInt32.size
    · obtain ⟨other, member, large⟩ := beyond
      rcases List.mem_cons.mp member with rfl | inside
      · omega
      · rw [word32, below_ok small, ok_bind, ih (fun x within => each x (by simp [within]))
          ⟨other, inside, large⟩]
        rfl
    · rw [word32, below, if_neg small]
      rfl

theorem mapM_forall₂ (f : α → Checked β) (items : List α) (results : List β)
    (ok : items.mapM f = .ok results) :
    List.Forall₂ (fun item result => f item = .ok result) items results := by
  induction items generalizing results with
  | nil =>
    cases ok
    exact .nil
  | cons item items ih =>
    rw [List.mapM_cons] at ok
    obtain ⟨result, first, ok⟩ := bind_success _ _ _ ok
    obtain ⟨others, rest, ok⟩ := bind_success _ _ _ ok
    cases ok
    exact .cons first (ih others rest)

theorem foldlM_congr (first second : β → α → Checked β) (items : List α) (start : β)
    (same : ∀ item ∈ items, ∀ state, first state item = second state item) :
    items.foldlM first start = items.foldlM second start := by
  induction items generalizing start with
  | nil => rfl
  | cons item items ih =>
    rw [List.foldlM_cons, List.foldlM_cons, same item (by simp)]
    exact congrArg (second start item >>= ·) (funext fun next =>
      ih next fun other member => same other (by simp [member]))

/-- A fold whose steps succeed up to a number of items succeeds on so many. -/
theorem foldlM_success (step : β → α → Checked β) (P : Nat → β → Prop) (limit : Nat)
    (items : List α)
    (kept : ∀ count state item, count < limit → item ∈ items → P count state →
      ∃ next, step state item = .ok next ∧ P (count + 1) next)
    (count : Nat) (start : β) (initial : P count start) (within : count + items.length ≤ limit) :
    ∃ last, items.foldlM step start = .ok last ∧ P (count + items.length) last := by
  induction items generalizing count start with
  | nil => exact ⟨start, rfl, initial⟩
  | cons item items ih =>
    rw [List.length_cons] at within
    obtain ⟨next, stepped, holds⟩ := kept count start item (by omega) (by simp) initial
    obtain ⟨last, rest, final⟩ :=
      ih (fun n state x below member => kept n state x below (by simp [member]))
        (count + 1) next holds (by omega)
    refine ⟨last, ?_, ?_⟩
    · rw [List.foldlM_cons, stepped, ok_bind, rest]
    · rw [List.length_cons, Nat.add_comm items.length, ← Nat.add_assoc]
      exact final

/-- All answers of a run and its last state, or its fault. -/
def trace (step : σ → ι → Checked (α × σ)) : σ → List ι → Checked (List α × σ)
  | state, [] => .ok ([], state)
  | state, input :: inputs => do
      let (answer, state) ← step state input
      let (answers, state) ← trace step state inputs
      return (answer :: answers, state)

variable (step : σ → ι → Checked (α × σ))

theorem trace_cons (state : σ) (input : ι) (inputs : List ι) (answers : List α) (last : σ)
    (ran : trace step state (input :: inputs) = .ok (answers, last)) :
    ∃ answer next rest, step state input = .ok (answer, next) ∧
      trace step next inputs = .ok (rest, last) ∧ answers = answer :: rest := by
  obtain ⟨⟨answer, next⟩, stepped, ran⟩ := bind_success _ _ _ ran
  obtain ⟨⟨rest, final⟩, tail, ran⟩ := bind_success _ _ _ ran
  cases ran
  exact ⟨answer, next, rest, stepped, tail, rfl⟩

theorem trace_cons_eq (state next : σ) (input : ι) (inputs : List ι) (answer : α)
    (stepped : step state input = .ok (answer, next)) :
    trace step state (input :: inputs) =
      (trace step next inputs).map fun run => (answer :: run.1, run.2) := by
  simp only [trace, stepped, ok_bind]
  cases trace step next inputs with
  | error fault => rfl
  | ok run => rfl

theorem trace_cons_error (state : σ) (input : ι) (inputs : List ι) (fault : Fault)
    (stepped : step state input = .error fault) :
    trace step state (input :: inputs) = .error fault := by
  rw [trace, stepped, error_bind]

theorem trace_append (state : σ) (first second : List ι) :
    trace step state (first ++ second) = (do
      let (answers, state) ← trace step state first
      let (others, state) ← trace step state second
      return (answers ++ others, state)) := by
  induction first generalizing state with
  | nil =>
    simp only [List.nil_append, trace, ok_bind]
    cases trace step state second <;> rfl
  | cons input first ih =>
    simp only [List.cons_append, trace]
    cases step state input with
    | error fault => rfl
    | ok result =>
      simp only [ok_bind, ih]
      cases trace step result.2 first with
      | error fault => rfl
      | ok middle =>
        simp only [ok_bind, pure_eq]
        cases trace step middle.2 second <;> rfl

theorem trace_snoc (state : σ) (inputs : List ι) (input : ι) (answers : List α) (last : σ)
    (ran : trace step state (inputs ++ [input]) = .ok (answers, last)) :
    ∃ before middle answer, trace step state inputs = .ok (before, middle) ∧
      step middle input = .ok (answer, last) ∧ answers = before ++ [answer] := by
  rw [trace_append] at ran
  obtain ⟨⟨before, middle⟩, head, ran⟩ := bind_success _ _ _ ran
  obtain ⟨⟨tail, final⟩, single, ran⟩ := bind_success _ _ _ ran
  obtain ⟨answer, next, rest, stepped, ended, rfl⟩ := trace_cons step _ _ _ _ _ single
  cases ended
  cases ran
  exact ⟨before, middle, answer, head, stepped, rfl⟩

theorem trace_append_success (state : σ) (first second : List ι) (answers others : List α)
    (middle last : σ) (ran : trace step state first = .ok (answers, middle))
    (later : trace step middle second = .ok (others, last)) :
    trace step state (first ++ second) = .ok (answers ++ others, last) := by
  rw [trace_append, ran]
  simp only [ok_bind, later, pure_eq]

theorem trace_snoc_success (state : σ) (inputs : List ι) (input : ι) (before : List α) (middle : σ)
    (answer : α) (last : σ) (ran : trace step state inputs = .ok (before, middle))
    (stepped : step middle input = .ok (answer, last)) :
    trace step state (inputs ++ [input]) = .ok (before ++ [answer], last) := by
  apply trace_append_success step state inputs [input] before [answer] middle last ran
  simp only [trace, ok_bind, stepped, pure_eq]

theorem length_trace (state : σ) (inputs : List ι) (results : List α) (last : σ)
    (ran : trace step state inputs = .ok (results, last)) : results.length = inputs.length := by
  induction inputs generalizing state results with
  | nil =>
    cases ran
    rfl
  | cons input inputs ih =>
    obtain ⟨answer, next, rest, _, tail, rfl⟩ := trace_cons step _ _ _ _ _ ran
    rw [List.length_cons, List.length_cons, ih next rest tail]

theorem trace_split (state : σ) (inputs : List ι) (earlier : List α) (answer : α) (later : List α)
    (last : σ) (ran : trace step state inputs = .ok (earlier ++ answer :: later, last)) :
    ∃ before input after middle next, inputs = before ++ input :: after ∧
      trace step state before = .ok (earlier, middle) ∧ step middle input = .ok (answer, next) ∧
      trace step next after = .ok (later, last) := by
  induction earlier generalizing state inputs with
  | nil =>
    cases inputs with
    | nil => cases ran
    | cons input inputs =>
      obtain ⟨first, next, rest, stepped, tail, same⟩ := trace_cons step _ _ _ _ _ ran
      cases same
      exact ⟨[], input, inputs, state, next, rfl, rfl, stepped, tail⟩
  | cons first earlier ih =>
    cases inputs with
    | nil => cases ran
    | cons input inputs =>
      obtain ⟨own, next, rest, stepped, tail, same⟩ := trace_cons step _ _ _ _ _ ran
      cases same
      obtain ⟨before, chosen, after, middle, following, rfl, head, found, ended⟩ :=
        ih next inputs tail
      refine ⟨input :: before, chosen, after, middle, following, rfl, ?_, found, ended⟩
      rw [trace_cons_eq step _ _ _ _ _ stepped, head]
      rfl

/-- What holds of an empty history and is kept by every step holds of every
run together with its history. -/
theorem trace_induction (P : List ι → List α → σ → Prop) (start : σ) (initial : P [] [] start)
    (kept : ∀ inputs answers state input answer next,
      trace step start inputs = .ok (answers, state) → P inputs answers state →
      step state input = .ok (answer, next) → P (inputs ++ [input]) (answers ++ [answer]) next)
    (inputs : List ι) (answers : List α) (last : σ)
    (ran : trace step start inputs = .ok (answers, last)) : P inputs answers last := by
  induction inputs using List.reverseRecOn generalizing answers last with
  | nil =>
    cases ran
    exact initial
  | append_singleton inputs input ih =>
    obtain ⟨before, middle, answer, head, stepped, rfl⟩ := trace_snoc step _ _ _ _ _ ran
    exact kept inputs before middle input answer last head (ih before middle head) stepped

end

section
variable {α β γ δ σ τ ι : Type}

/-- The same fault, or values that belong together. -/
def Matched (related : α → β → Prop) : Checked α → Checked β → Prop
  | .ok first, .ok second => related first second
  | .error fault, .error other => fault = other
  | _, _ => False

theorem matched_self (result : Checked α) : Matched Eq result result := by
  cases result with
  | error fault => exact rfl
  | ok value => exact rfl

theorem Matched.cases {related : α → β → Prop} {first : Checked α} {second : Checked β}
    (matched : Matched related first second) :
    (∃ fault, first = .error fault ∧ second = .error fault) ∨
      ∃ a b, first = .ok a ∧ second = .ok b ∧ related a b := by
  cases first with
  | error fault =>
    cases second with
    | error other => exact .inl ⟨fault, rfl, congrArg _ (Eq.symm matched)⟩
    | ok b => exact matched.elim
  | ok a =>
    cases second with
    | error other => exact matched.elim
    | ok b => exact .inr ⟨a, b, rfl, rfl, matched⟩

theorem Matched.ite {related : α → β → Prop} {first other : Checked α} {second another : Checked β}
    (condition : Prop) [Decidable condition] (yes : Matched related first second)
    (no : Matched related other another) :
    Matched related (if condition then first else other)
      (if condition then second else another) := by
  split
  · exact yes
  · exact no

theorem Matched.imp {related weaker : α → β → Prop} {first : Checked α} {second : Checked β}
    (matched : Matched related first second) (implied : ∀ a b, related a b → weaker a b) :
    Matched weaker first second := by
  cases first with
  | error fault =>
    cases second with
    | error other => exact matched
    | ok b => exact matched.elim
  | ok a =>
    cases second with
    | error other => exact matched.elim
    | ok b => exact implied a b matched

theorem Matched.imp_ok {related weaker : α → β → Prop} {first : Checked α} {second : Checked β}
    (matched : Matched related first second)
    (implied : ∀ a b, first = .ok a → second = .ok b → related a b → weaker a b) :
    Matched weaker first second := by
  rcases matched.cases with ⟨fault, rfl, rfl⟩ | ⟨a, b, rfl, rfl, holds⟩
  · exact matched
  · exact implied a b rfl rfl holds

theorem Matched.meet {related : α → γ → Prop} {other : β → γ → Prop} {first : Checked α}
    {second : Checked β} {third : Checked γ} (matched : Matched related first third)
    (also : Matched other second third) :
    Matched (fun a b => ∃ c, related a c ∧ other b c) first second := by
  rcases matched.cases with ⟨fault, rfl, rfl⟩ | ⟨a, c, rfl, rfl, holds⟩
  · cases second with
    | error fault => exact Eq.symm also
    | ok b => exact also.elim
  · cases second with
    | error fault => exact also.elim
    | ok b => exact ⟨c, holds, also⟩

theorem Matched.map_left {related : γ → β → Prop} {first : Checked α} {second : Checked β}
    (f : α → γ) (matched : Matched (fun a b => related (f a) b) first second) :
    Matched related (first.map f) second := by
  rcases matched.cases with ⟨fault, rfl, rfl⟩ | ⟨a, b, rfl, rfl, holds⟩
  · exact matched
  · exact holds

theorem Matched.bind {related : α → β → Prop} {after : γ → δ → Prop} {first : Checked α}
    {second : Checked β} (matched : Matched related first second) (next : α → Checked γ)
    (other : β → Checked δ)
    (kept : ∀ a b, related a b → Matched after (next a) (other b)) :
    Matched after (first >>= next) (second >>= other) := by
  cases first with
  | error fault =>
    cases second with
    | error same => exact matched
    | ok b => exact matched.elim
  | ok a =>
    cases second with
    | error fault => exact matched.elim
    | ok b => exact kept a b matched

theorem trace_matched (step : σ → ι → Checked (α × σ)) (other : τ → ι → Checked (β × τ))
    (states : σ → τ → Prop) (answers : α → β → Prop)
    (kept : ∀ s t input, states s t → Matched (fun x y => answers x.1 y.1 ∧ states x.2 y.2)
      (step s input) (other t input))
    (s : σ) (t : τ) (start : states s t) (inputs : List ι) :
    Matched (fun x y => List.Forall₂ answers x.1 y.1 ∧ states x.2 y.2)
      (trace step s inputs) (trace other t inputs) := by
  induction inputs generalizing s t with
  | nil => exact ⟨.nil, start⟩
  | cons input inputs ih =>
    refine (kept s t input start).bind _ _ ?_
    rintro ⟨answer, s⟩ ⟨reply, t⟩ ⟨first, later⟩
    refine (ih s t later).bind _ _ ?_
    rintro ⟨rest, s⟩ ⟨replies, t⟩ ⟨others, last⟩
    exact ⟨.cons first others, last⟩

end

section
variable {α β σ τ ι : Type} (step : σ → ι → Checked (α × σ)) (reduced : τ → ι → Checked (β × τ))
  (stands : σ → τ → Prop) (visible : ι → Bool) (shown : α → Option β)

/-- A machine stands for a reduced one that does not get the hidden inputs. -/
structure Projects : Prop where
  hidden : ∀ s t input, stands s t → visible input = false →
    ∃ answer next, step s input = .ok (answer, next) ∧ shown answer = none ∧ stands next t
  seen : ∀ s t input, stands s t → visible input = true →
    Matched (fun x y => shown x.1 = some y.1 ∧ stands x.2 y.2) (step s input) (reduced t input)

variable {step reduced stands visible shown}

/-- What a run shows is the reduced run of its visible inputs. -/
theorem Projects.run (projects : Projects step reduced stands visible shown) (s : σ) (t : τ)
    (start : stands s t) (inputs : List ι) :
    Matched (fun x y => x.1.filterMap shown = y.1 ∧ stands x.2 y.2)
      (trace step s inputs) (trace reduced t (inputs.filter visible)) := by
  induction inputs generalizing s t with
  | nil => exact ⟨rfl, start⟩
  | cons input inputs ih =>
    cases chosen : visible input with
    | false =>
      obtain ⟨answer, next, stepped, silent, later⟩ := projects.hidden s t input start chosen
      rw [List.filter_cons_of_neg (by simp [chosen]), trace_cons_eq step _ _ _ _ _ stepped]
      apply Matched.map_left
      refine (ih next t later).imp fun x y both => ⟨?_, both.2⟩
      rw [List.filterMap_cons_none silent]
      exact both.1
    | true =>
      rw [List.filter_cons_of_pos chosen]
      refine (projects.seen s t input start chosen).bind _ _ ?_
      rintro ⟨answer, s⟩ ⟨reply, t⟩ ⟨alike, later⟩
      refine (ih s t later).bind _ _ ?_
      rintro ⟨rest, s⟩ ⟨replies, t⟩ ⟨others, last⟩
      exact ⟨by rw [List.filterMap_cons_some alike, others], last⟩

/-- Two machines that stand for the same reduced one show the same in runs that
differ in hidden inputs only. -/
theorem Projects.independent (projects : Projects step reduced stands visible shown) (s r : σ)
    (t : τ) (first : stands s t) (second : stands r t) (inputs others : List ι)
    (same : inputs.filter visible = others.filter visible) :
    Matched (fun x y => x.1.filterMap shown = y.1.filterMap shown ∧
      ∃ last, stands x.2 last ∧ stands y.2 last) (trace step s inputs) (trace step r others) := by
  have left := projects.run s t first inputs
  rw [same] at left
  refine (left.meet (projects.run r t second others)).imp ?_
  rintro x y ⟨z, ⟨shows, stands⟩, shown, last⟩
  exact ⟨shows.trans shown.symm, z.2, stands, last⟩

end

end BandLight.Checked
