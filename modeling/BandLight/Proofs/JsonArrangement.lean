import BandLight.Proofs.FieldwiseForms
import BandLight.Proofs.JsonFlaws
import BandLight.Proofs.JsonSetAside
import BandLight.Proofs.JsonSpacing
import Mathlib.Data.List.Forall2

/-! Records read from their members in any order. At each level the members may be shuffled
and others may be mixed in that the record does not know; the reader finds each field once
and gets the value that the record was written for. -/
namespace BandLight.Json

/-- Members as a writer puts them out, with other keys than the given ones. -/
def Unknown (members further : List (Literal × Json)) : Prop :=
  ∀ member ∈ further, member.1.isSome = true ∧ member.2.Emitted ∧ member.1 ∉ members.map (·.1)

mutual

/-- The second value is the first with the members of its objects in another order and
unknown ones among them, at every level. -/
inductive Rearranged : Json → Json → Prop
  | atom {value : Json} (atom : value.isAtom = true) : Rearranged value value
  | array {items others : List Json} (each : RearrangedItems items others) :
      Rearranged (.array items) (.array others)
  | object {members known further shuffled : List (Literal × Json)}
      (each : RearrangedMembers members known) (unknown : Unknown members further)
      (order : shuffled.Perm (known ++ further)) :
      Rearranged (.object members) (.object shuffled)

inductive RearrangedItems : List Json → List Json → Prop
  | nil : RearrangedItems [] []
  | cons {item other : Json} {items others : List Json} (first : Rearranged item other)
      (rest : RearrangedItems items others) : RearrangedItems (item :: items) (other :: others)

inductive RearrangedMembers : List (Literal × Json) → List (Literal × Json) → Prop
  | nil : RearrangedMembers [] []
  | cons {key : Literal} {value other : Json} {members others : List (Literal × Json)}
      (first : Rearranged value other) (rest : RearrangedMembers members others) :
      RearrangedMembers ((key, value) :: members) ((key, other) :: others)

end

def without (names : List String) : Json → Json
  | .object members => .object (members.filter (·.1 ∉ names.map fun name => some name.toList))
  | value => value

theorem rearranged_atom {value json : Json} (atom : value.isAtom = true)
    (same : Rearranged value json) : json = value := by
  cases same with
  | atom _ => rfl
  | array _ => cases atom
  | object _ _ _ => cases atom

theorem emittedMembers_iff (members : List (Literal × Json)) : EmittedMembers members ↔
    ∀ member ∈ members, member.1.isSome = true ∧ member.2.Emitted := by
  induction members with
  | nil => simp [EmittedMembers]
  | cons member members ih =>
    rw [EmittedMembers, ih, List.forall_mem_cons, and_assoc]

theorem emittedItems_iff (items : List Json) :
    EmittedItems items ↔ ∀ item ∈ items, item.Emitted := by
  induction items with
  | nil => simp [EmittedItems]
  | cons item items ih => rw [EmittedItems, ih, List.forall_mem_cons]

theorem emitted_record (object : List (String × Json))
    (each : ∀ member ∈ object, member.2.Emitted) : (record object).Emitted := by
  apply (emittedMembers_iff _).mpr
  intro member inside
  obtain ⟨field, present, rfl⟩ := List.mem_map.mp inside
  exact ⟨rfl, each field present⟩

mutual

theorem Rearranged.emitted : ∀ {value other : Json}, Rearranged value other → value.Emitted →
    other.Emitted
  | _, _, .atom _, emitted => emitted
  | _, _, .array each, emitted => each.emitted emitted
  | _, _, .object each unknown order, emitted => by
    have known := (emittedMembers_iff _).mp (each.emitted emitted)
    apply (emittedMembers_iff _).mpr
    intro member inside
    rcases List.mem_append.mp (order.mem_iff.mp inside) with there | further
    · exact known member there
    · exact ⟨(unknown member further).1, (unknown member further).2.1⟩

theorem RearrangedItems.emitted : ∀ {items others : List Json}, RearrangedItems items others →
    EmittedItems items → EmittedItems others
  | _, _, .nil, _ => trivial
  | _, _, .cons first rest, emitted => ⟨first.emitted emitted.1, rest.emitted emitted.2⟩

theorem RearrangedMembers.emitted : ∀ {members others : List (Literal × Json)},
    RearrangedMembers members others → EmittedMembers members → EmittedMembers others
  | _, _, .nil, _ => trivial
  | _, _, .cons first rest, emitted =>
      ⟨emitted.1, first.emitted emitted.2.1, rest.emitted emitted.2.2⟩

end

def named (object : List (String × Json)) : List (Literal × Json) :=
  object.map fun member => (some member.1.toList, member.2)

theorem rearranged_named (object : List (String × Json)) (known : List (Literal × Json))
    (each : RearrangedMembers (named object) known) :
    ∃ inner, known = named inner ∧ inner.map (·.1) = object.map (·.1) ∧
      List.Forall₂ Rearranged (object.map (·.2)) (inner.map (·.2)) := by
  induction object generalizing known with
  | nil =>
    cases each
    exact ⟨[], rfl, rfl, .nil⟩
  | cons member object ih =>
    cases each with
    | @cons _ _ other _ _ first rest =>
      obtain ⟨inner, rfl, names, values⟩ := ih _ rest
      exact ⟨(member.1, other) :: inner, rfl, congrArg (member.1 :: ·) names, .cons first values⟩

end BandLight.Json

namespace BandLight.Codec
open Json

theorem filter_shuffled (object inner : List (String × Json))
    (further shuffled : List (Literal × Json)) (names : inner.map (·.1) = object.map (·.1))
    (distinct : (object.map (·.1)).Nodup) (unknown : Unknown (Json.named object) further)
    (order : shuffled.Perm (Json.named inner ++ further)) (name : String) (value : Json)
    (there : (name, value) ∈ inner) :
    shuffled.filter (·.1 = some name.toList) = [(some name.toList, value)] := by
  have known := filter_record inner (names ▸ distinct) name value there
  have others : further.filter (·.1 = some name.toList) = [] := by
    rw [List.filter_eq_nil_iff]
    intro member inside same
    apply (unknown member inside).2.2
    obtain ⟨field, present, equal⟩ := List.mem_map.mp
      (names ▸ List.mem_map.mpr ⟨(name, value), there, rfl⟩ : name ∈ object.map (·.1))
    have key : member.1 = some name.toList := by simpa using same
    rw [key, ← equal]
    exact List.mem_map.mpr ⟨_, List.mem_map.mpr ⟨field, present, rfl⟩, rfl⟩
  have found := order.filter (·.1 = some name.toList)
  rw [List.filter_append, others, List.append_nil] at found
  exact List.perm_singleton.mp (known ▸ found)

theorem filter_without (names : List String) (members : List (Literal × Json)) (name : String) :
    (members.filter (·.1 ∉ names.map fun name => (some name.toList : Literal))).filter
      (·.1 = some name.toList) =
        if name ∈ names then [] else members.filter (·.1 = some name.toList) := by
  have named : (some name.toList : Literal) ∈ names.map (fun name => some name.toList) ↔
      name ∈ names := by
    simp [String.toList_inj]
  rw [List.filter_filter]
  split
  · next left =>
    rw [List.filter_eq_nil_iff]
    intro member _ both
    rw [Bool.and_eq_true, decide_eq_true_eq, decide_eq_true_eq] at both
    exact both.2 (both.1 ▸ named.mpr left)
  · next kept =>
    apply List.filter_congr
    intro member _
    by_cases same : member.1 = some name.toList
    · simp [same, named, kept]
    · simp [same]

theorem fields_shuffled {object inner : List (String × Json)}
    {further shuffled : List (Literal × Json)} (omitted : List String)
    (names : inner.map (·.1) = object.map (·.1)) (distinct : (object.map (·.1)).Nodup)
    (unknown : Unknown (Json.named object) further)
    (order : shuffled.Perm (Json.named inner ++ further)) :
    Codec.fields (object.map (·.1)) ((Json.object shuffled).without omitted) =
      some (inner.map fun member => if member.1 ∈ omitted then none else some member.2) := by
  have keys : (shuffled.filter (·.1 ∉ omitted.map fun name => (some name.toList : Literal))).all
      (·.1.isSome) = true := by
    rw [List.all_eq_true]
    intro member inside
    rcases List.mem_append.mp (order.mem_iff.mp (List.mem_filter.mp inside).1) with there | other
    · obtain ⟨field, _, rfl⟩ := List.mem_map.mp there
      rfl
    · exact (unknown member other).1
  rw [← names]
  refine (members_iff _ _ _).mpr ⟨keys, ?_⟩
  rw [List.forall₂_map_left_iff, List.forall₂_map_right_iff, List.forall₂_same]
  intro member inside
  have found := filter_shuffled object inner further shuffled names distinct unknown order
    member.1 member.2 inside
  rw [Holds, filter_without, found]
  by_cases left : member.1 ∈ omitted <;> simp [left]

theorem fields_rearranged {names : List String} {object : List (String × Json)} {json : Json}
    (omitted : List String) (fields : object.map (·.1) = names) (distinct : names.Nodup)
    (same : Rearranged (.record object) json) :
    ∃ values, List.Forall₂ Rearranged (object.map (·.2)) values ∧
      Codec.fields names (json.without omitted) = some (List.zipWith (fun name value =>
        if name ∈ omitted then none else some value) names values) := by
  subst fields
  cases same with
  | atom atom => cases atom
  | object each unknown order =>
    obtain ⟨inner, rfl, names, values⟩ := rearranged_named object _ each
    refine ⟨inner.map (·.2), values, ?_⟩
    rw [fields_shuffled omitted names distinct unknown order, ← names, List.zipWith_map,
      List.zipWith_self]

theorem without_nil (json : Json) : json.without [] = json := by
  cases json <;> simp [without]

theorem forall₂_rearranged {items others : List Json} (each : RearrangedItems items others) :
    List.Forall₂ Rearranged items others := by
  induction items generalizing others with
  | nil =>
    cases each
    exact .nil
  | cons item items ih =>
    cases each with
    | cons first rest => exact .cons first (ih rest)

instance : Fieldwise Rearranged where
  number same := rearranged_atom rfl same
  null same := rearranged_atom rfl same
  name same := by
    rw [rearranged_atom rfl same]
    rfl
  items same := by
    cases same with
    | atom atom => cases atom
    | array each => exact ⟨_, rfl, forall₂_rearranged each⟩
  fields {object json} distinct same := by
    cases same with
    | atom atom => cases atom
    | object each unknown order =>
      obtain ⟨inner, rfl, names, values⟩ := rearranged_named object _ each
      refine ⟨inner.map (·.2), values, ?_⟩
      rw [← without_nil (.object _), fields_shuffled [] names distinct unknown order]
      simp

end BandLight.Codec

namespace BandLight

/-- A configuration with the standard values in place of some fields. -/
def Config.defaulting (config : Config) (omitted : List String) : Config :=
  { config with
    tuning := if "tuning" ∈ omitted then .standard else config.tuning
    frequencyFloorBin := if "frequency_floor_bin" ∈ omitted then none
      else config.frequencyFloorBin
    eventQueueCapacity := if "event_queue_capacity" ∈ omitted then 256
      else config.eventQueueCapacity }

/-- What a type writes may be set aside, and each value is decoded from any arrangement of
what it is encoded as. -/
class TolerantCodec (α : Type) [Codec α] : Prop where
  emitted : ∀ value : α, (Codec.encode value).Emitted
  decode_rearranged : ∀ (value : α) (json : Json), (Codec.encode value).Rearranged json →
    Codec.decode json = some value

attribute [simp] TolerantCodec.emitted

namespace Codec
open Json TolerantCodec FormCodec

theorem ofDigits_grows (text : List Char) (n : Nat) :
    n ≤ text.foldl (fun n c => 10 * n + (c.toNat - 48)) n := by
  induction text generalizing n with
  | nil => exact le_refl n
  | cons c text ih =>
    have step : n ≤ 10 * n + (c.toNat - 48) := by omega
    exact step.trans (ih _)

theorem appendDigits_whole (text : List Char) (n : Nat)
    (fits : text.foldl (fun n c => 10 * n + (c.toNat - 48)) n < UInt64.size) :
    appendDigits n text = (text.foldl (fun n c => 10 * n + (c.toNat - 48)) n, []) := by
  induction text generalizing n with
  | nil => rfl
  | cons c text ih =>
    rw [List.foldl_cons] at fits ⊢
    rw [appendDigits, if_pos ((ofDigits_grows text _).trans_lt fits)]
    exact ih _ fits

theorem decimal_digits (n : Nat) (fits : n < UInt64.size) :
    decimal (digits n) = { significand := n, exponent := 0 } := by
  have digit := digits_isDigit n
  have unsigned : (digits n).dropWhile (· = '-') = digits n := by
    rw [List.dropWhile_eq_self_iff]
    intro some sign
    have first := digit _ (List.getElem_mem some)
    rw [of_decide_eq_true sign] at first
    cases first
  have whole : (digits n).takeWhile Char.isDigit = digits n :=
    List.takeWhile_eq_self_iff.mpr digit
  have rest : (digits n).dropWhile Char.isDigit = [] := List.dropWhile_eq_nil_iff.mpr digit
  have value : (digits n).foldl (fun n c => 10 * n + (c.toNat - 48)) 0 = n := ofDigits_digits n
  have taken := appendDigits_whole (digits n) 0 (value.trans_lt fits)
  rw [value] at taken
  simp only [decimal, unsigned, whole, rest, taken]
  rfl

theorem emitted_ofNat (n : Nat) (fits : n < UInt64.size) : (Json.ofNat n).Emitted := by
  have power : UInt64.size < greatestPower := by decide +kernel
  refine ⟨isNumber_digits n, .inl ?_⟩
  rw [decimal_digits n fits]
  exact ((Nat.mul_one n).trans_lt fits).trans power

instance : TolerantCodec UInt64 where
  emitted n := emitted_ofNat _ n.toNat_lt_size
  decode_rearranged := decode_form

instance : TolerantCodec UInt32 where
  emitted n := emitted_ofNat _ (n.toNat_lt_size.trans (by decide))
  decode_rearranged := decode_form

instance : TolerantCodec UInt16 where
  emitted n := emitted_ofNat _ (n.toNat_lt_size.trans (by decide))
  decode_rearranged := decode_form

instance : TolerantCodec UInt8 where
  emitted n := emitted_ofNat _ (n.toNat_lt_size.trans (by decide))
  decode_rearranged := decode_form

instance : FormCodec Rearranged String where
  decode_form text json same := by
    rw [rearranged_atom rfl same, LawfulCodec.decode_encode]

instance : TolerantCodec String where
  emitted _ := rfl
  decode_rearranged := decode_form

instance : TolerantCodec Channel where
  emitted _ := rfl
  decode_rearranged := decode_form

instance : TolerantCodec (Option UInt64) where
  emitted
    | none => trivial
    | some n => emitted n
  decode_rearranged := decode_form

instance {α : Type} [Codec α] [TolerantCodec α] [FormCodec Rearranged α] :
    TolerantCodec (List α) where
  emitted items := (emittedItems_iff _).mpr fun item member => by
    obtain ⟨value, _, rfl⟩ := List.mem_map.mp member
    exact emitted value
  decode_rearranged := decode_form

/-- A reader of a record gets the fields that are there as they were written. -/
theorem read_without {α : Type} {names omitted : List String} {object : List (String × Json)}
    {read : List (Option Json) → Option α} {value : α} {json : Json}
    (fields : object.map (·.1) = names) (distinct : names.Nodup)
    (same : Rearranged (.record object) json)
    (rebuilt : ∀ values, List.Forall₂ Rearranged (object.map (·.2)) values →
      read (List.zipWith (fun name value => if name ∈ omitted then none else some value) names
        values) = some value) :
    (Codec.fields names (json.without omitted) >>= read) = some value := by
  obtain ⟨values, each, found⟩ := fields_rearranged omitted fields distinct same
  rw [found]
  exact rebuilt values each

instance : TolerantCodec Band where
  emitted band := emitted_record _ (by simp)
  decode_rearranged := decode_form

instance : TolerantCodec Tuning where
  emitted tuning := emitted_record _ (by simp)
  decode_rearranged := decode_form

instance : TolerantCodec LevelEvent where
  emitted event := emitted_record _ (by simp)
  decode_rearranged := decode_form

instance : TolerantCodec Rgb where
  emitted rgb := emitted_record _ (by simp)
  decode_rearranged := decode_form

instance : TolerantCodec ColorMap where
  emitted map := emitted_record _ (by simp)
  decode_rearranged := decode_form

instance : TolerantCodec Stats where
  emitted stats := emitted_record _ (by simp)
  decode_rearranged := decode_form

theorem defaulted_omitted {α : Type} [Codec α] [FormCodec Rearranged α] (standard value : α)
    (left : Prop) [Decidable left] {json : Json} (same : Rearranged (encode value) json) :
    defaulted standard (if left then none else some json) =
      some (if left then standard else value) := by
  split
  · rfl
  · exact decode_form value json same

/-- Whatever is left out of a configuration, of the fields that may be left out, has its
standard value. -/
theorem decode_defaulting (config : Config) (omitted : List String)
    (optional : omitted ⊆ Config.optional) (json : Json)
    (same : Rearranged (encode config) json) :
    decode (json.without omitted) = some (config.defaulting omitted) := by
  have kept (name : String) (needed : name ∉ Config.optional) : name ∉ omitted :=
    fun left => needed (optional left)
  refine read_without (by rfl) (by decide) same ?_
  rintro _ (_ | ⟨blockSize, _ | ⟨sampleRate, _ | ⟨bands, _ | ⟨tuning, _ | ⟨interval, _ | ⟨floor,
    _ | ⟨capacity, _ | _⟩⟩⟩⟩⟩⟩⟩)
  simp [kept "block_size" (by decide), kept "sample_rate" (by decide), kept "bands" (by decide),
    kept "tick_interval_ms" (by decide), required_form blockSize,
    required_form sampleRate, required_form bands, required_form interval,
    defaulted_omitted _ _ _ tuning, defaulted_omitted _ _ _ floor,
    defaulted_omitted _ _ _ capacity, Config.defaulting, Config.standardEventQueueCapacity]

instance : TolerantCodec Config where
  emitted config := emitted_record _ (by simp)
  decode_rearranged := decode_form

end Codec

end BandLight
