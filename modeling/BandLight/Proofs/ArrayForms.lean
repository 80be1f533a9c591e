import BandLight.Proofs.RecordReading

/-! Records as arrays, names as objects. The text of a value may have, at each level and
independently of all others, the array of the fields in place of the object, and a name as
the only key of an object; it reads as the compact text does. An event may have its kind
before or behind its payload or be the pair of both. An array that lacks a field which has
to be there, or has one too many, is refused. -/
namespace BandLight.Json

mutual

/-- The second value is the first in another form. At every level an object may have its
members in another order with unknown ones among them, or be the array of its values. -/
inductive Reshaped : Json → Json → Prop
  | atom {value : Json} (atom : value.isAtom = true) : Reshaped value value
  | name {name : List Char} : Reshaped (.string (some name)) (.object [(some name, .null)])
  | array {items others : List Json} (each : ReshapedItems items others) :
      Reshaped (.array items) (.array others)
  | object {members known further shuffled : List (Literal × Json)}
      (keys : known.map (·.1) = members.map (·.1))
      (each : ReshapedItems (members.map (·.2)) (known.map (·.2)))
      (unknown : Unknown members further) (order : shuffled.Perm (known ++ further)) :
      Reshaped (.object members) (.object shuffled)
  | values {members : List (Literal × Json)} {others : List Json}
      (each : ReshapedItems (members.map (·.2)) others) : Reshaped (.object members) (.array others)

inductive ReshapedItems : List Json → List Json → Prop
  | nil : ReshapedItems [] []
  | cons {item other : Json} {items others : List Json} (first : Reshaped item other)
      (rest : ReshapedItems items others) : ReshapedItems (item :: items) (other :: others)

end

mutual

theorem Reshaped.refl : ∀ value : Json, Reshaped value value
  | .null | .bool _ | .number _ | .string _ => .atom rfl
  | .array items => .array (reshaped_items items)
  | .object members => @Reshaped.object members members [] members rfl (reshaped_members members)
      (by rintro _ ⟨⟩) (by rw [List.append_nil])

theorem reshaped_items : ∀ items : List Json, ReshapedItems items items
  | [] => .nil
  | item :: items => .cons (.refl item) (reshaped_items items)

theorem reshaped_members : ∀ members : List (Literal × Json),
    ReshapedItems (members.map (·.2)) (members.map (·.2))
  | [] => .nil
  | (_, value) :: members => .cons (.refl value) (reshaped_members members)

end

theorem emitted_values {members : List (Literal × Json)} (emitted : EmittedMembers members) :
    EmittedItems (members.map (·.2)) := by
  apply (emittedItems_iff _).mpr
  intro value inside
  obtain ⟨member, there, rfl⟩ := List.mem_map.mp inside
  exact ((emittedMembers_iff members).mp emitted member there).2

mutual

theorem Reshaped.emitted : ∀ {value other : Json}, Reshaped value other → value.Emitted →
    other.Emitted
  | _, _, .atom _, emitted => emitted
  | _, _, .name, _ => ⟨rfl, trivial, trivial⟩
  | _, _, .array each, emitted => each.emitted emitted
  | _, _, @Reshaped.object members _ _ _ keys each unknown order, emitted => by
    have values := (emittedItems_iff _).mp (each.emitted (emitted_values emitted))
    have texts := (emittedMembers_iff members).mp emitted
    apply (emittedMembers_iff _).mpr
    intro member inside
    rcases List.mem_append.mp (order.mem_iff.mp inside) with there | further
    · have key : member.1 ∈ members.map (·.1) := keys ▸ List.mem_map_of_mem there
      obtain ⟨other, present, same⟩ := List.mem_map.mp key
      exact ⟨same ▸ (texts other present).1, values _ (List.mem_map_of_mem there)⟩
    · exact ⟨(unknown member further).1, (unknown member further).2.1⟩
  | _, _, .values each, emitted => each.emitted (emitted_values emitted)

theorem ReshapedItems.emitted : ∀ {items others : List Json}, ReshapedItems items others →
    EmittedItems items → EmittedItems others
  | _, _, .nil, _ => trivial
  | _, _, .cons first rest, emitted => ⟨first.emitted emitted.1, rest.emitted emitted.2⟩

end

theorem forall₂_reshaped {items others : List Json} (each : ReshapedItems items others) :
    List.Forall₂ Reshaped items others := by
  induction items generalizing others with
  | nil =>
    cases each
    exact .nil
  | cons item items ih =>
    cases each with
    | cons first rest => exact .cons first (ih rest)

theorem named_values (object : List (String × Json)) :
    (named object).map (·.2) = object.map (·.2) := by
  simp [named]

theorem named_of_keys (object : List (String × Json)) (known : List (Literal × Json))
    (keys : known.map (·.1) = (named object).map (·.1)) :
    ∃ inner, known = named inner ∧ inner.map (·.1) = object.map (·.1) := by
  induction object generalizing known with
  | nil =>
    obtain rfl := List.map_eq_nil_iff.mp keys
    exact ⟨[], rfl, rfl⟩
  | cons member object ih =>
    obtain ⟨⟨key, value⟩, others, rfl, rfl, rest⟩ := List.map_eq_cons_iff.mp keys
    obtain ⟨inner, rfl, names⟩ := ih others rest
    exact ⟨(member.1, value) :: inner, rfl, congrArg (member.1 :: ·) names⟩

instance : Fieldwise Reshaped where
  number same := by
    cases same
    rfl
  null same := by
    cases same
    rfl
  name same := by
    cases same with
    | atom _ => rfl
    | name => rfl
  items same := by
    cases same with
    | atom atom => cases atom
    | array each => exact ⟨_, rfl, forall₂_reshaped each⟩
  fields {object json} distinct same := by
    cases same with
    | atom atom => cases atom
    | object keys each unknown order =>
      obtain ⟨inner, rfl, names⟩ := named_of_keys object _ keys
      have values := forall₂_reshaped each
      rw [← named, named_values, named_values] at values
      refine ⟨inner.map (·.2), values, ?_⟩
      rw [← Codec.without_nil (.object _), Codec.fields_shuffled [] names distinct unknown order]
      simp
    | values each =>
      have values := forall₂_reshaped each
      rw [← named, named_values] at values
      have length := values.length_eq
      rw [List.length_map] at length
      exact ⟨_, values, by simp [Codec.fields, length]⟩

end BandLight.Json

namespace BandLight.Codec
open Json StrictCodec FormCodec

/-- A record that stops early has its first fields and lacks the others. -/
theorem fields_leading (object : List (String × Json)) (rest : List String)
    (distinct : (object.map (·.1) ++ rest).Nodup) :
    fields (object.map (·.1) ++ rest) (.record object) =
      some (object.map (some ·.2) ++ rest.map fun _ => none) := by
  obtain ⟨unique, -, apart⟩ := List.nodup_append.mp distinct
  refine (members_iff _ _ _).mpr ⟨by simp, List.rel_append ?_ ?_⟩
  · rw [List.forall₂_map_left_iff, List.forall₂_map_right_iff, List.forall₂_same]
    exact fun member there => filter_record object unique member.1 member.2 there
  · rw [List.forall₂_map_right_iff, List.forall₂_same]
    intro name absent
    refine List.filter_eq_nil_iff.mpr fun member inside same => ?_
    obtain ⟨field, there, rfl⟩ := List.mem_map.mp inside
    refine apart field.1 (List.mem_map_of_mem there) name absent ?_
    simpa [String.toList_inj] using same

theorem fields_array {names : List String} (distinct : names.Nodup) (items : List Json)
    (short : items.length ≤ names.length) :
    fields names (.array items) = fields names (.record (names.zip items)) := by
  obtain ⟨firsts, rest, rfl, length⟩ : ∃ firsts rest, names = firsts ++ rest ∧
      firsts.length = items.length :=
    ⟨_, _, (List.take_append_drop items.length names).symm, List.length_take_of_le short⟩
  have zipped : (firsts ++ rest).zip items = firsts.zip items := by
    rw [← List.append_nil items, List.zip_append length, List.zip_nil_right, List.append_nil,
      List.append_nil]
  have leading : (firsts.zip items).map (·.1) = firsts := List.map_fst_zip length.le
  have values : (firsts.zip items).map (·.2) = items := List.map_snd_zip length.ge
  have found := fields_leading (firsts.zip items) rest (by rw [leading]; exact distinct)
  rw [leading, ← Function.comp_def some, ← List.map_map] at found
  rw [zipped, found, values, fields, if_pos short, List.length_append, length]
  simp [List.map_const']

/-- A type that is read from arrays of some lengths only. -/
class SizedCodec (α : Type) [Codec α] (least most : outParam Nat) : Prop where
  refuses_array : ∀ items : List Json, items.length < least ∨ most < items.length →
    (decode (.array items) : Option α) = none

open SizedCodec

/-- A record is not read from an array that ends before a field that has to be there, nor
from one with more items than fields. -/
theorem sized_record {α : Type} [Codec α] [StrictCodec α] {optional names : List String}
    {known : List (String × Schema)} {read : List (Option Json) → Option α} {needed : String}
    {last most : Nat} (reads : ∀ json, (decode json : Option α) = fields names json >>= read)
    (schematic : schema α = .record optional known) (named : known.map (·.1) = names)
    (distinct : names.Nodup) (place : names[last]? = some needed) (required : needed ∉ optional)
    (count : names.length = most) : SizedCodec α (last + 1) most where
  refuses_array items length := by
    subst named count
    by_cases short : items.length ≤ (known.map (·.1)).length
    · rw [reads, fields_array distinct items short, ← reads]
      refine refuses _ ?_
      rw [schematic]
      refine .missing (List.mem_of_getElem? place) required fun member there same => ?_
      obtain ⟨field, paired, rfl⟩ := List.mem_map.mp there
      obtain ⟨i, found⟩ := List.mem_iff_getElem?.mp paired
      obtain ⟨name, item⟩ := List.getElem?_zip_eq_some.mp found
      -- The names are distinct, so the items would reach as far as the field that is needed.
      have equal : field.1 = needed := by simpa [String.toList_inj] using same
      have before := (List.getElem?_eq_some_iff.mp item).1
      have inside := (List.getElem?_eq_some_iff.mp name).1
      have position := (List.getElem?_inj inside distinct).mp (name.trans (equal ▸ place.symm))
      omega
    · rw [reads, fields, if_neg short]
      rfl

instance : SizedCodec Band 3 3 :=
  sized_record (fun _ => rfl) rfl rfl (by decide) rfl (by decide) rfl

instance : SizedCodec Tuning 4 4 :=
  sized_record (fun _ => rfl) rfl rfl (by decide) rfl (by decide) rfl

instance : SizedCodec LevelEvent 2 2 :=
  sized_record (fun _ => rfl) rfl rfl (by decide) rfl (by decide) rfl

instance : SizedCodec Rgb 3 3 :=
  sized_record (fun _ => rfl) rfl rfl (by decide) rfl (by decide) rfl

instance : SizedCodec ColorMap 1 1 :=
  sized_record (fun _ => rfl) rfl rfl (by decide) rfl (by decide) rfl

instance : SizedCodec Stats 7 7 :=
  sized_record (fun _ => rfl) rfl rfl (by decide) rfl (by decide) rfl

/-- The fields behind the tick interval may be left out. -/
instance : SizedCodec Config 5 7 :=
  sized_record (fun _ => rfl) rfl rfl (by decide) rfl (by decide) rfl

instance : SizedCodec Event 2 2 where
  refuses_array items length := by
    have pairless : tagged (.array items) = none := by
      rcases items with _ | ⟨kind, _ | ⟨content, _ | ⟨other, items⟩⟩⟩
      · simp [tagged]
      · simp [tagged]
      · simp at length
      · simp [tagged]
    change (tagged (.array items)).bind _ = none
    rw [pairless]
    rfl

/-- A record has a value in the place of a field: under its name or at its position. -/
inductive HasField (name : String) (position : Nat) (value : Json) : Json → Prop
  | named {members : List (Literal × Json)} (there : (some name.toList, value) ∈ members) :
      HasField name position value (.object members)
  | positioned {items : List Json} (there : items[position]? = some value) :
      HasField name position value (.array items)

theorem HasField.found {names : List String} {values : List (Option Json)} {name : String}
    {position : Nat} {value json : Json} (has : HasField name position value json)
    (listed : names[position]? = some name) (found : fields names json = some values) :
    values[position]? = some (some value) := by
  cases has with
  | named there =>
    obtain ⟨-, held⟩ := (members_iff _ _ _).mp found
    obtain ⟨inside, same⟩ := List.getElem?_eq_some_iff.mp listed
    obtain ⟨length, each⟩ := List.forall₂_iff_get.mp held
    have holds := each position inside (by omega)
    simp only [List.get_eq_getElem, same] at holds
    rw [List.getElem?_eq_getElem (by omega), holds.value there]
  | positioned there =>
    rw [fields] at found
    split at found
    · cases found
      have inside := (List.getElem?_eq_some_iff.mp there).1
      rw [List.getElem?_append_left (by rw [List.length_map]; exact inside), List.getElem?_map,
        there]
      rfl
    · cases found

/-- An array of the wrong length in the place of a record of a configuration. -/
inductive MissizedPart : Json → Prop
  | tuning {items : List Json} {json : Json} (has : HasField "tuning" 3 (.array items) json)
      (length : items.length ≠ 4) : MissizedPart json
  | band {items bands : List Json} {json : Json} (has : HasField "bands" 2 (.array bands) json)
      (there : .array items ∈ bands) (length : items.length ≠ 3) : MissizedPart json

theorem refuse_part {json : Json} (part : MissizedPart json) :
    (decode json : Option Config) = none := by
  refine Option.bind_eq_none_iff.mpr fun values found => ?_
  cases part with
  | tuning has length =>
    have there := has.found rfl found
    have refused : (decode (.array _) : Option Tuning) = none :=
      refuses_array _ (Nat.lt_or_gt_of_ne length)
    split
    · obtain rfl := Option.some.inj there
      simp [defaulted, refused]
    · rfl
  | @band items bands _ has inside length =>
    have there := has.found rfl found
    have refused : (decode (.array bands) : Option (List Band)) = none :=
      mapM_refused bands decode _ inside (refuses_array items (Nat.lt_or_gt_of_ne length))
    split
    · obtain rfl := Option.some.inj there
      simp [required, refused]
    · rfl

theorem read_array {α : Type} {names : List String} {read : List (Option Json) → Option α}
    {value : α} {items : List Json} (short : items.length ≤ names.length)
    (rebuilt : read (items.map some ++ List.replicate (names.length - items.length) none) =
      some value) : (fields names (.array items) >>= read) = some value := by
  rw [fields, if_pos short]
  exact rebuilt

theorem defaulted_none {α : Type} [Codec α] (standard : α) :
    defaulted standard none = some standard := rfl

/-- What a configuration leaves out at the end of its array has its standard value. -/
theorem decode_leading (config : Config) (items : List Json)
    (same : Reshaped (encode config) (.array items)) :
    decode (.array (items.take 5)) =
        some (config.defaulting ["frequency_floor_bin", "event_queue_capacity"]) ∧
      decode (.array (items.take 6)) = some (config.defaulting ["event_queue_capacity"]) := by
  cases same with
  | values each =>
    obtain _ | ⟨blockSize, _ | ⟨sampleRate, _ | ⟨bands, _ | ⟨tuning, _ | ⟨interval,
      _ | ⟨floor, _ | ⟨capacity, _ | _⟩⟩⟩⟩⟩⟩⟩ := forall₂_reshaped each
    constructor
    · refine read_array (by simp) ?_
      simp [required_form blockSize, required_form sampleRate, required_form bands,
        required_form interval, defaulted_form _ tuning, defaulted_none, Config.defaulting,
        Config.standardEventQueueCapacity]
    · refine read_array (by simp) ?_
      simp [required_form blockSize, required_form sampleRate, required_form bands,
        required_form interval, defaulted_form _ tuning, defaulted_form _ floor,
        defaulted_none, Config.defaulting, Config.standardEventQueueCapacity]

/-- The ways in which an event is written: its kind before or behind its payload, both as a
pair, or the kind alone when there is nothing else to tell. -/
inductive EventForm (event : Event) : Json → Prop
  | kindFirst {content : Json} (same : Rearranged (payloadOf event) content) :
      EventForm event (.object [(some "type".toList, encode (kindOf event)),
        (some "payload".toList, content)])
  | payloadFirst {content : Json} (same : Rearranged (payloadOf event) content)
      (deep : content.depth < maxDepth) :
      EventForm event (.object [(some "payload".toList, content),
        (some "type".toList, encode (kindOf event))])
  | pair {content : Json} (same : Rearranged (payloadOf event) content) :
      EventForm event (.array [encode (kindOf event), content])
  | alone (stopped : event = .stopped) :
      EventForm event (.object [(some "type".toList, encode (kindOf event))])

theorem EventForm.emitted {event : Event} {json : Json} (form : EventForm event json) :
    json.Emitted := by
  cases form with
  | kindFirst same => exact ⟨rfl, rfl, rfl, same.emitted (emitted_payload event), trivial⟩
  | payloadFirst same _ => exact ⟨rfl, same.emitted (emitted_payload event), rfl, rfl, trivial⟩
  | pair same => exact ⟨rfl, same.emitted (emitted_payload event), trivial⟩
  | alone stopped => exact ⟨rfl, rfl, trivial⟩

theorem decode_eventForm {event : Event} {json : Json} (form : EventForm event json) :
    decode json = some event := by
  have tag : kindName (encode (kindOf event)) = some (kindOf event).toList := rfl
  cases form with
  | @kindFirst content same =>
    have read : tagged (.object [(some "type".toList, encode (kindOf event)),
        (some "payload".toList, content)]) = some ((kindOf event).toList, some content) := by
      simp [tagged, tag]
    rw [decode_tagged read, decodeEvent_payload event content same]
  | @payloadFirst content same deep =>
    have fits := fits_emitted content (maxDepth - 1) (same.emitted (emitted_payload event))
      (Nat.le_sub_one_of_lt deep)
    have read : tagged (.object [(some "payload".toList, content),
        (some "type".toList, encode (kindOf event))]) =
          some ((kindOf event).toList, some content) := by
      simp [tagged, tag, fits]
    rw [decode_tagged read, decodeEvent_payload event content same]
  | @pair content same =>
    have read : tagged (.array [encode (kindOf event), content]) =
        some ((kindOf event).toList, some content) := rfl
    rw [decode_tagged read, decodeEvent_payload event content same]
  | alone stopped =>
    subst stopped
    have read : tagged (.object [(some "type".toList, encode (kindOf .stopped))]) =
        some ((kindOf .stopped).toList, none) := by
      simp [tagged, tag]
    rw [decode_tagged read]
    rfl

/-- The values of a type are read from every form as they are from the compact text, and an
array of another length is refused. -/
structure ReadsForms (α : Type) [Codec α] (least most : Nat) : Prop where
  compact : ∀ value : α, (parse (compact (encode value))).bind decode = some value
  reshaped : ∀ (value : α) (json : Json) (text : List Char), Reshaped (encode value) json →
    Spaced json.toTokens text → (parse (String.ofList text)).bind decode = some value
  sized : ∀ (items : List Json) (text : List Char), (Json.array items).WellFormed →
    items.length < least ∨ most < items.length → Spaced (Json.array items).toTokens text →
      ((parse (String.ofList text)).bind decode : Option α) = none

theorem read_reshaped {α : Type} [Codec α] [TolerantCodec α] [FormCodec Reshaped α] (value : α)
    (json : Json) (text : List Char) (same : Reshaped (encode value) json)
    (spaced : Spaced json.toTokens text) :
    (parse (String.ofList text)).bind decode = some value := by
  have emitted := same.emitted (TolerantCodec.emitted value)
  rw [read_spaced (wellFormed_emitted json emitted) spaced]
  exact decode_form value json same

theorem reads_forms (α : Type) [Codec α] [LawfulCodec α] [TolerantCodec α]
    [FormCodec Reshaped α] {least most : Nat} [SizedCodec α least most] :
    ReadsForms α least most where
  compact := (roundTrips α).read_write
  reshaped := read_reshaped
  sized items text formed length spaced := by
    rw [read_spaced formed spaced]
    exact refuses_array items length

theorem emitted_leading {items : List Json} (emitted : (Json.array items).Emitted) (kept : Nat) :
    (Json.array (items.take kept)).Emitted := by
  apply (emittedItems_iff _).mpr
  intro item inside
  exact (emittedItems_iff items).mp emitted item (List.mem_of_mem_take inside)

/-- Records read the same from arrays and objects, at every level, and so do names and events
from all that stands for them. The array of a configuration may stop behind the tick interval
or the frequency floor; no other array may have another length, within a configuration
neither. -/
theorem forms_read_alike :
    (ReadsForms Config 5 7 ∧ ReadsForms Band 3 3 ∧ ReadsForms Tuning 4 4 ∧
      ReadsForms LevelEvent 2 2 ∧ ReadsForms Rgb 3 3 ∧ ReadsForms ColorMap 1 1 ∧
      ReadsForms Stats 7 7) ∧
    (∀ (config : Config) (items : List Json) (text : List Char),
      Reshaped (encode config) (.array items) →
        (Spaced (Json.array (items.take 5)).toTokens text →
          (parse (String.ofList text)).bind decode =
            some (config.defaulting ["frequency_floor_bin", "event_queue_capacity"])) ∧
        (Spaced (Json.array (items.take 6)).toTokens text →
          (parse (String.ofList text)).bind decode =
            some (config.defaulting ["event_queue_capacity"]))) ∧
    (∀ (json : Json) (text : List Char), json.WellFormed → MissizedPart json →
      Spaced json.toTokens text →
        ((parse (String.ofList text)).bind decode : Option Config) = none) ∧
    (∀ (channel : Channel) (json : Json) (text : List Char), Reshaped (encode channel) json →
      Spaced json.toTokens text → (parse (String.ofList text)).bind decode = some channel) ∧
    (∀ (event : Event) (json : Json) (text : List Char), EventForm event json →
      Spaced json.toTokens text → (parse (String.ofList text)).bind decode = some event) ∧
    ∀ (items : List Json) (text : List Char), (Json.array items).WellFormed →
      items.length ≠ 2 → Spaced (Json.array items).toTokens text →
        ((parse (String.ofList text)).bind decode : Option Event) = none := by
  refine ⟨⟨reads_forms Config, reads_forms Band, reads_forms Tuning, reads_forms LevelEvent,
    reads_forms Rgb, reads_forms ColorMap, reads_forms Stats⟩, ?_, ?_, read_reshaped, ?_, ?_⟩
  · intro config items text same
    have emitted := same.emitted (TolerantCodec.emitted config)
    obtain ⟨five, six⟩ := decode_leading config items same
    constructor
    · intro spaced
      rw [read_spaced (wellFormed_emitted _ (emitted_leading emitted 5)) spaced, five]
    · intro spaced
      rw [read_spaced (wellFormed_emitted _ (emitted_leading emitted 6)) spaced, six]
  · intro json text formed part spaced
    rw [read_spaced formed spaced]
    exact refuse_part part
  · intro event json text form spaced
    rw [read_spaced (wellFormed_emitted json form.emitted) spaced]
    exact decode_eventForm form
  · intro items text formed length spaced
    rw [read_spaced formed spaced]
    exact refuses_array items (Nat.lt_or_gt_of_ne length)

/-- A configuration of two bands as an array, with one band as an array and one as an
object. -/
def mixedForm : List Json :=
  [.ofNat 256, .ofNat 16000,
    .array [.array [.ofNat 0, .ofNat 80, .ofNat 100], encode (⟨81, 127, 50⟩ : Band)],
    encode Tuning.standard, .ofNat 100, .null, .ofNat 256]

def mixedConfig : Config :=
  { blockSize := 256, sampleRate := 16000, bands := [⟨0, 80, 100⟩, ⟨81, 127, 50⟩]
    tuning := .standard, tickIntervalMs := 100, frequencyFloorBin := none
    eventQueueCapacity := 256 }

theorem reshaped_mixedForm : Reshaped (encode mixedConfig) (.array mixedForm) := by
  have positional : Reshaped (encode (⟨0, 80, 100⟩ : Band))
      (.array [.ofNat 0, .ofNat 80, .ofNat 100]) := .values (reshaped_items [_, _, _])
  have bands : Reshaped (encode mixedConfig.bands)
      (.array [.array [.ofNat 0, .ofNat 80, .ofNat 100], encode (⟨81, 127, 50⟩ : Band)]) :=
    .array (.cons positional (.cons (.refl _) .nil))
  exact .values (.cons (.refl _) (.cons (.refl _) (.cons bands (reshaped_items [_, _, _, _]))))

theorem forms_read_alike_of_mixed : Reshaped (encode mixedConfig) (.array mixedForm) ∧
    ∃ text, Spaced (Json.array (mixedForm.take 5)).toTokens text ∧
      (parse (String.ofList text)).bind decode = some mixedConfig :=
  ⟨reshaped_mixedForm, _, spaced_apart _,
    (forms_read_alike.2.1 mixedConfig mixedForm _ reshaped_mixedForm).1 (spaced_apart _)⟩

end BandLight.Codec
