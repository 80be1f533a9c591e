import BandLight.Proofs.EventReading

/-! Reading does not depend on how an object is laid out. The text of a value may have its
members in any order at each level, unknown ones among them and space between its tokens; it
reads as the compact text does. What may be left out has its standard value, and everything
else that is missing or repeated is an error, at whatever depth. -/
namespace BandLight.Codec
open Json StrictCodec

/-- The values of a type are read from every arrangement of their forms as they are from the
compact text, and what is flawed is refused. -/
structure ReadsArranged (α : Type) [Codec α] (form : α → Json) (flawed : Json → Prop) : Prop where
  compact : ∀ value : α, (parse (compact (encode value))).bind decode = some value
  arranged : ∀ (value : α) (json : Json) (text : List Char), Rearranged (form value) json →
    json.depth ≤ maxDepth → Spaced json.toTokens text →
      (parse (String.ofList text)).bind decode = some value
  refused : ∀ (json : Json) (text : List Char), json.WellFormed → flawed json →
    Spaced json.toTokens text → ((parse (String.ofList text)).bind decode : Option α) = none

theorem read_spaced {α : Type} [Codec α] {json : Json} {text : List Char}
    (formed : json.WellFormed) (spaced : Spaced json.toTokens text) :
    (parse (String.ofList text)).bind decode = (decode json : Option α) := by
  rw [parse_spaced formed spaced]
  rfl

theorem reads_arranged (α : Type) [Codec α] [LawfulCodec α] [TolerantCodec α] [StrictCodec α] :
    ReadsArranged α encode (Flawed (schema α)) where
  compact := (roundTrips α).read_write
  arranged value json text same _ spaced := by
    have emitted := same.emitted (TolerantCodec.emitted value)
    rw [read_spaced (wellFormed_emitted json emitted) spaced]
    exact TolerantCodec.decode_rearranged value json same
  refused json text formed flawed spaced := by
    rw [read_spaced formed spaced]
    exact refuses json flawed

theorem emitted_complete (event : Event) : (complete event).Emitted := by
  rw [complete_eq]
  exact emitted_record _ (by simp [emitted_payload])

theorem event_reads_arranged : ReadsArranged Event complete FlawedEvent where
  compact := (roundTrips Event).read_write
  arranged event json text same deep spaced := by
    have emitted := same.emitted (emitted_complete event)
    rw [read_spaced (wellFormed_emitted json emitted) spaced]
    exact decode_complete event json same deep
  refused json text formed flawed spaced := by
    rw [read_spaced formed spaced]
    exact refuse_event json flawed

theorem emitted_without (names : List String) {json : Json} (emitted : json.Emitted) :
    (json.without names).Emitted := by
  cases json with
  | object members =>
    apply (emittedMembers_iff _).mpr
    intro member inside
    exact (emittedMembers_iff members).mp emitted member (List.mem_filter.mp inside).1
  | _ => exact emitted

/-- Records and events read the same in every layout. A configuration that lacks some of its
optional fields has their standard values, and an event that says that all has stopped needs
no payload. -/
theorem reading_ignores_arrangement :
    (ReadsArranged Config encode (Flawed (schema Config)) ∧
      ReadsArranged Band encode (Flawed (schema Band)) ∧
      ReadsArranged Tuning encode (Flawed (schema Tuning)) ∧
      ReadsArranged LevelEvent encode (Flawed (schema LevelEvent)) ∧
      ReadsArranged Rgb encode (Flawed (schema Rgb)) ∧
      ReadsArranged ColorMap encode (Flawed (schema ColorMap)) ∧
      ReadsArranged Stats encode (Flawed (schema Stats)) ∧
      ReadsArranged Event complete FlawedEvent) ∧
    (∀ (config : Config) (omitted : List String) (json : Json) (text : List Char),
      omitted ⊆ Config.optional → Rearranged (encode config) json →
        Spaced (json.without omitted).toTokens text →
          (parse (String.ofList text)).bind decode = some (config.defaulting omitted)) ∧
    ∀ (json : Json) (text : List Char), Rearranged (complete .stopped) json →
      Spaced (json.without ["payload"]).toTokens text →
        (parse (String.ofList text)).bind decode = some Event.stopped := by
  refine ⟨⟨reads_arranged Config, reads_arranged Band, reads_arranged Tuning,
    reads_arranged LevelEvent, reads_arranged Rgb, reads_arranged ColorMap, reads_arranged Stats,
    event_reads_arranged⟩, ?_, ?_⟩
  · intro config omitted json text optional same spaced
    have emitted := emitted_without omitted (same.emitted (TolerantCodec.emitted config))
    rw [read_spaced (wellFormed_emitted _ emitted) spaced]
    exact decode_defaulting config omitted optional json same
  · intro json text same spaced
    have emitted := emitted_without ["payload"] (same.emitted (emitted_complete .stopped))
    rw [read_spaced (wellFormed_emitted _ emitted) spaced]
    exact decode_stopped_alone json same

/-- A band level whose payload comes before its kind, with a level before its band and an
unknown array between them. -/
def payloadFirst : Json :=
  .object [(some "payload".toList, .object [(some "level".toList, .ofNat 2),
      (some "x".toList, .array [.null]), (some "band".toList, .ofNat 1)]),
    (some "type".toList, encode "BandLevel")]

theorem rearranged_payloadFirst : Rearranged (complete (.bandLevel 1 2)) payloadFirst := by
  have inner : Rearranged (.record [("band", .ofNat 1), ("level", .ofNat 2)])
      (.object [(some "level".toList, .ofNat 2), (some "x".toList, .array [.null]),
        (some "band".toList, .ofNat 1)]) := by
    refine @Rearranged.object _ [_, _] [(some "x".toList, .array [.null])] _
      (.cons (.atom rfl) (.cons (.atom rfl) .nil)) ?_ (List.perm_append_singleton _ [_, _])
    intro member inside
    obtain rfl := List.mem_singleton.mp inside
    exact ⟨rfl, ⟨trivial, trivial⟩, by decide⟩
  exact .object (.cons (.atom rfl) (.cons inner .nil)) (by rintro _ ⟨⟩) (.swap _ _ _)

theorem reading_ignores_arrangement_of_payload_first :
    Rearranged (complete (.bandLevel 1 2)) payloadFirst ∧ payloadFirst.depth ≤ maxDepth ∧
      ∃ text, Spaced payloadFirst.toTokens text ∧
        (parse (String.ofList text)).bind decode = some (Event.bandLevel 1 2) := by
  have deep : payloadFirst.depth ≤ maxDepth := by decide
  exact ⟨rearranged_payloadFirst, deep, _, spaced_apart _,
    reading_ignores_arrangement.1.2.2.2.2.2.2.2.arranged _ _ _ rearranged_payloadFirst deep
      (spaced_apart _)⟩

end BandLight.Codec
