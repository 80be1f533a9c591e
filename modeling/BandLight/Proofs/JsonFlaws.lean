import BandLight.Proofs.JsonRecords
import Mathlib.Data.List.Forall2

/-! What the readers of records refuse. A record needs each of its fields, but for some that
may be left out, and none of them twice. An object that breaks this is refused, and so is
every value that has such an object in the place of one of its fields or items. -/
namespace BandLight

inductive Schema
  | plain
  | list (item : Schema)
  | record (optional : List String) (fields : List (String × Schema))

/-- A field that has to be there is missing or a field is repeated, in the value itself or
somewhere inside. -/
inductive Json.Flawed : Schema → Json → Prop
  | missing {optional : List String} {fields : List (String × Schema)} {name : String}
      {members : List (Literal × Json)} (known : name ∈ fields.map (·.1))
      (needed : name ∉ optional) (absent : ∀ member ∈ members, member.1 ≠ some name.toList) :
      Flawed (.record optional fields) (.object members)
  | repeated {optional : List String} {fields : List (String × Schema)} {name : String}
      {first second : Json} {before between after : List (Literal × Json)}
      (known : name ∈ fields.map (·.1)) :
      Flawed (.record optional fields) (.object (before ++ (some name.toList, first) ::
        between ++ (some name.toList, second) :: after))
  | within {optional : List String} {fields : List (String × Schema)} {name : String}
      {schema : Schema} {value : Json} {members : List (Literal × Json)}
      (known : (name, schema) ∈ fields) (there : (some name.toList, value) ∈ members)
      (flawed : Flawed schema value) : Flawed (.record optional fields) (.object members)
  | item {schema : Schema} {item : Json} {items : List Json} (there : item ∈ items)
      (flawed : Flawed schema item) : Flawed (.list schema) (.array items)

/-- The fields of a configuration that may be left out. -/
def Config.optional : List String := ["tuning", "frequency_floor_bin", "event_queue_capacity"]

/-- A type whose reader refuses every flawed value. -/
class StrictCodec (α : Type) [Codec α] where
  schema : Schema
  refuses : ∀ json : Json, json.Flawed schema → (Codec.decode json : Option α) = none

namespace Codec
open Json StrictCodec

theorem mapM_option_iff {α β : Type} (items : List α) (f : α → Option β) (results : List β) :
    items.mapM f = some results ↔
      List.Forall₂ (fun item result => f item = some result) items results := by
  induction items generalizing results with
  | nil => simp [eq_comm]
  | cons item items ih =>
    rw [List.mapM_cons]
    change (f item).bind (fun first => (items.mapM f).bind fun rest => some (first :: rest)) =
      some results ↔ _
    simp only [Option.bind_eq_some_iff, ih, Option.some.injEq, List.forall₂_cons_left_iff]
    constructor
    · rintro ⟨first, one, rest, others, rfl⟩
      exact ⟨first, rest, one, others, rfl⟩
    · rintro ⟨first, rest, one, others, rfl⟩
      exact ⟨first, one, rest, others, rfl⟩

/-- The member of a name, when there is one, is the only one. -/
def Holds (object : List (Literal × Json)) (name : String) (found : Option Json) : Prop :=
  object.filter (·.1 = some name.toList) =
    found.toList.map fun value => (some name.toList, value)

theorem Holds.absent {object : List (Literal × Json)} {name : String} {found : Option Json}
    (holds : Holds object name found)
    (absent : ∀ member ∈ object, member.1 ≠ some name.toList) : found = none := by
  have nothing : object.filter (·.1 = some name.toList) = [] :=
    List.filter_eq_nil_iff.mpr fun member inside same =>
      absent member inside (of_decide_eq_true same)
  rw [Holds, nothing] at holds
  cases found with
  | none => rfl
  | some value => cases holds

theorem Holds.value {object : List (Literal × Json)} {name : String} {found : Option Json}
    {value : Json} (holds : Holds object name found)
    (there : (some name.toList, value) ∈ object) : found = some value := by
  have inside : (some name.toList, value) ∈ object.filter (·.1 = some name.toList) :=
    List.mem_filter.mpr ⟨there, decide_eq_true rfl⟩
  rw [holds] at inside
  obtain ⟨_, present, same⟩ := List.mem_map.mp inside
  cases same
  exact Option.mem_toList.mp present

theorem Holds.there {object : List (Literal × Json)} {name : String} {value : Json}
    (holds : Holds object name (some value)) : (some name.toList, value) ∈ object := by
  have inside : (some name.toList, value) ∈ object.filter (·.1 = some name.toList) := by
    rw [holds]
    exact List.mem_singleton_self _
  exact (List.mem_filter.mp inside).1

theorem members_iff (names : List String) (object : List (Literal × Json))
    (values : List (Option Json)) : members names object = some values ↔
      object.all (·.1.isSome) = true ∧ List.Forall₂ (Holds object) names values := by
  have relation {R S : String → Option Json → Prop}
      (same : ∀ name found, R name found ↔ S name found) :
      List.Forall₂ R names values ↔ List.Forall₂ S names values :=
    ⟨.imp fun name found => (same name found).mp, .imp fun name found => (same name found).mpr⟩
  rw [members]
  split
  · next keys =>
    rw [mapM_option_iff, and_iff_right keys]
    apply relation
    intro name found
    have key (member : Literal × Json)
        (there : member ∈ object.filter (·.1 = some name.toList)) :
        member = (some name.toList, member.2) :=
      Prod.ext (of_decide_eq_true (List.mem_filter.mp there).2) rfl
    rw [Holds]
    generalize object.filter (·.1 = some name.toList) = same at key
    rcases same with _ | ⟨member, _ | _⟩
    · cases found <;> simp
    · rw [key member List.mem_cons_self]
      cases found <;> simp [eq_comm]
    · cases found <;> simp
  · next keys => simp [keys]

/-- A field is there if it has to be, and has no flaw. -/
def Accepts (optional : List String) (field : String × Schema) (found : Option Json) : Prop :=
  (found = none → field.1 ∈ optional) ∧ ∀ json ∈ found, ¬ json.Flawed field.2

theorem forall₂_both {α β : Type} {R S : α → β → Prop} {items : List α} {results : List β}
    (first : List.Forall₂ R items results) (second : List.Forall₂ S items results) :
    ∀ item ∈ items, ∃ result, R item result ∧ S item result := by
  induction first with
  | nil => simp
  | cons one _ ih =>
    cases second with
    | cons other rest =>
      rw [List.forall_mem_cons]
      exact ⟨⟨_, one, other⟩, ih rest⟩

theorem sound_members {optional : List String} {fields : List (String × Schema)}
    {object : List (Literal × Json)} {values : List (Option Json)}
    (found : members (fields.map (·.1)) object = some values)
    (accepted : List.Forall₂ (Accepts optional) fields values) :
    ¬ Flawed (.record optional fields) (.object object) := by
  obtain ⟨-, held⟩ := (members_iff _ _ _).mp found
  have each := forall₂_both accepted (List.forall₂_map_left_iff.mp held)
  have named (name : String) (known : name ∈ fields.map (·.1)) :
      ∃ schema found, Accepts optional (name, schema) found ∧ Holds object name found := by
    obtain ⟨⟨_, schema⟩, present, rfl⟩ := List.mem_map.mp known
    obtain ⟨found, both⟩ := each _ present
    exact ⟨schema, found, both⟩
  intro flawed
  cases flawed with
  | @missing _ _ name _ known needed absent =>
    obtain ⟨schema, found, accepts, holds⟩ := named name known
    exact needed (accepts.1 (holds.absent absent))
  | @repeated _ _ name first second before between after known =>
    -- Two members of a name are two entries of what is found under it.
    obtain ⟨schema, found, accepts, holds⟩ := named name known
    have single : found.toList.length ≤ 1 := by cases found <;> simp
    have count := congrArg List.length holds
    simp only [List.filter_append, List.filter_cons, decide_true, if_true, List.length_append,
      List.length_cons, List.length_map] at count
    omega
  | @within _ _ name schema value _ known there flawed =>
    obtain ⟨found, accepts, holds⟩ := each _ known
    exact accepts.2 value (holds.value there) flawed

/-- A reader that builds its value from fields that it accepts refuses a flawed object. -/
theorem refuse_record {α : Type} {optional names : List String}
    {fields : List (String × Schema)} {read : List (Option Json) → Option α} {json : Json}
    (named : fields.map (·.1) = names)
    (accepted : ∀ values value, read values = some value →
      List.Forall₂ (Accepts optional) fields values)
    (flawed : Flawed (.record optional fields) json) :
    (Codec.fields names json >>= read) = none := by
  subst named
  have object : ∃ object, json = .object object := by
    cases flawed <;> exact ⟨_, rfl⟩
  obtain ⟨object, rfl⟩ := object
  change (members _ object).bind read = none
  rw [Option.bind_eq_none_iff]
  intro values found
  by_contra built
  obtain ⟨value, built⟩ := Option.ne_none_iff_exists'.mp built
  exact sound_members found (accepted values value built) flawed

theorem mapM_refused {α β : Type} (items : List α) (f : α → Option β) (item : α)
    (there : item ∈ items) (refused : f item = none) : items.mapM f = none := by
  by_contra read
  obtain ⟨results, read⟩ := Option.ne_none_iff_exists'.mp read
  have each := (mapM_option_iff items f results).mp read
  obtain ⟨result, one, -⟩ := forall₂_both each each item there
  rw [refused] at one
  cases one

theorem accepts_required {α : Type} [Codec α] [StrictCodec α] {optional : List String}
    {name : String} {found : Option Json} {value : α} (read : required found = some value) :
    Accepts optional (name, schema α) found := by
  cases found with
  | none => cases read
  | some json =>
    refine ⟨by rintro ⟨⟩, ?_⟩
    rintro _ ⟨⟩ flawed
    have refused : (decode json : Option α) = none := refuses json flawed
    rw [required, Option.bind_some, refused] at read
    cases read

theorem accepts_defaulted {α : Type} [Codec α] [StrictCodec α] {optional : List String}
    {name : String} {found : Option Json} {standard value : α} (omitted : name ∈ optional)
    (read : defaulted standard found = some value) :
    Accepts optional (name, schema α) found := by
  refine ⟨fun _ => omitted, ?_⟩
  rintro json ⟨⟩ flawed
  have refused : (decode json : Option α) = none := refuses json flawed
  rw [defaulted, refused] at read
  cases read

@[reducible] def plainCodec (α : Type) [Codec α] : StrictCodec α where
  schema := .plain
  refuses _ flawed := by cases flawed

instance : StrictCodec UInt64 := plainCodec UInt64
instance : StrictCodec UInt32 := plainCodec UInt32
instance : StrictCodec UInt16 := plainCodec UInt16
instance : StrictCodec UInt8 := plainCodec UInt8
instance : StrictCodec String := plainCodec String
instance : StrictCodec Channel := plainCodec Channel
instance : StrictCodec (Option UInt64) := plainCodec (Option UInt64)

instance {α : Type} [Codec α] [StrictCodec α] : StrictCodec (List α) where
  schema := .list (schema α)
  refuses json flawed := by
    cases flawed with
    | item there flawed => exact mapM_refused _ decode _ there (refuses _ flawed)

instance : StrictCodec Band where
  schema := .record [] [("start_bin", schema UInt64), ("end_bin", schema UInt64),
    ("noise_floor", schema UInt16)]
  refuses json flawed := refuse_record rfl (by
    intro values band built
    split at built
    · simp only [Option.bind_eq_bind, Option.bind_eq_some_iff] at built
      obtain ⟨_, startBin, _, endBin, _, noiseFloor, _⟩ := built
      exact .cons (accepts_required startBin) (.cons (accepts_required endBin)
        (.cons (accepts_required noiseFloor) .nil))
    · cases built) flawed

instance : StrictCodec Tuning where
  schema := .record [] [("threshold_base", schema UInt32), ("threshold_knee", schema UInt32),
    ("divisor_base", schema UInt32), ("divisor_knee", schema UInt32)]
  refuses json flawed := refuse_record rfl (by
    intro values tuning built
    split at built
    · simp only [Option.bind_eq_bind, Option.bind_eq_some_iff] at built
      obtain ⟨_, base, _, knee, _, divisor, _, divisorKnee, _⟩ := built
      exact .cons (accepts_required base) (.cons (accepts_required knee)
        (.cons (accepts_required divisor) (.cons (accepts_required divisorKnee) .nil)))
    · cases built) flawed

instance : StrictCodec LevelEvent where
  schema := .record [] [("band", schema UInt64), ("level", schema UInt8)]
  refuses json flawed := refuse_record rfl (by
    intro values event built
    split at built
    · simp only [Option.bind_eq_bind, Option.bind_eq_some_iff] at built
      obtain ⟨_, band, _, level, _⟩ := built
      exact .cons (accepts_required band) (.cons (accepts_required level) .nil)
    · cases built) flawed

instance : StrictCodec Rgb where
  schema := .record [] [("red", schema UInt8), ("green", schema UInt8), ("blue", schema UInt8)]
  refuses json flawed := refuse_record rfl (by
    intro values rgb built
    split at built
    · simp only [Option.bind_eq_bind, Option.bind_eq_some_iff] at built
      obtain ⟨_, red, _, green, _, blue, _⟩ := built
      exact .cons (accepts_required red) (.cons (accepts_required green)
        (.cons (accepts_required blue) .nil))
    · cases built) flawed

instance : StrictCodec ColorMap where
  schema := .record [] [("channels", schema (List Channel))]
  refuses json flawed := refuse_record rfl (by
    intro values map built
    split at built
    · simp only [Option.bind_eq_bind, Option.bind_eq_some_iff] at built
      obtain ⟨_, channels, _⟩ := built
      exact .cons (accepts_required channels) .nil
    · cases built) flawed

instance : StrictCodec Stats where
  schema := .record [] [("blocks_delivered", schema UInt64), ("blocks_analyzed", schema UInt64),
    ("overruns", schema UInt64), ("deadline_misses", schema UInt64),
    ("spectra_consumed", schema UInt64), ("events_emitted", schema UInt64),
    ("events_dropped", schema UInt64)]
  refuses json flawed := refuse_record rfl (by
    intro values stats built
    split at built
    · simp only [Option.bind_eq_bind, Option.bind_eq_some_iff] at built
      obtain ⟨_, delivered, _, analyzed, _, overruns, _, misses, _, consumed, _, emitted,
        _, dropped, _⟩ := built
      exact .cons (accepts_required delivered) (.cons (accepts_required analyzed)
        (.cons (accepts_required overruns) (.cons (accepts_required misses)
        (.cons (accepts_required consumed) (.cons (accepts_required emitted)
        (.cons (accepts_required dropped) .nil))))))
    · cases built) flawed

instance : StrictCodec Config where
  schema := .record Config.optional [("block_size", schema UInt64),
    ("sample_rate", schema UInt32), ("bands", schema (List Band)), ("tuning", schema Tuning),
    ("tick_interval_ms", schema UInt64), ("frequency_floor_bin", schema (Option UInt64)),
    ("event_queue_capacity", schema UInt64)]
  refuses json flawed := refuse_record rfl (by
    intro values config built
    split at built
    · simp only [Option.bind_eq_bind, Option.bind_eq_some_iff] at built
      obtain ⟨_, blockSize, _, sampleRate, _, bands, _, tuning, _, interval, _, floor,
        _, capacity, _⟩ := built
      exact .cons (accepts_required blockSize) (.cons (accepts_required sampleRate)
        (.cons (accepts_required bands) (.cons (accepts_defaulted (by decide) tuning)
        (.cons (accepts_required interval) (.cons (accepts_defaulted (by decide) floor)
        (.cons (accepts_defaulted (by decide) capacity) .nil))))))
    · cases built) flawed

end Codec

end BandLight
