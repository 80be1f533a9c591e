import BandLight.Proofs.JsonRecords
import Mathlib.Data.List.Forall2

/-! Values that are read alike although they are written in different forms. A relation
between a value and its forms is fieldwise when it leaves numbers and null as they are,
keeps names, takes an array item by item, and shows the reader of a record a form of each
field. From any form of what a type writes it then reads the value. -/
namespace BandLight

class Json.Fieldwise (form : Json → Json → Prop) : Prop where
  number : ∀ {text : List Char} {json : Json}, form (.number text) json → json = .number text
  null : ∀ {json : Json}, form .null json → json = .null
  name : ∀ {name : List Char} {json : Json}, form (.string (some name)) json →
    Codec.kindName json = some name
  items : ∀ {items : List Json} {json : Json}, form (.array items) json →
    ∃ others, json = .array others ∧ List.Forall₂ form items others
  fields : ∀ {object : List (String × Json)} {json : Json}, (object.map (·.1)).Nodup →
    form (.record object) json → ∃ values, List.Forall₂ form (object.map (·.2)) values ∧
      Codec.fields (object.map (·.1)) json = some (values.map some)

/-- Each value is decoded from any form of what it is encoded as. -/
class FormCodec (form : Json → Json → Prop) (α : Type) [Codec α] : Prop where
  decode_form : ∀ (value : α) (json : Json), form (Codec.encode value) json →
    Codec.decode json = some value

namespace Codec
open Json FormCodec

variable {form : Json → Json → Prop}

section
variable {α : Type} [Codec α] [FormCodec form α] {value : α} {json : Json}

theorem required_form (same : form (encode value) json) : required (some json) = some value :=
  decode_form value json same

theorem defaulted_form (standard : α) (same : form (encode value) json) :
    defaulted standard (some json) = some value :=
  decode_form value json same

theorem mapM_form (items : List α) (others : List Json)
    (each : List.Forall₂ form (items.map encode) others) : others.mapM decode = some items := by
  induction items generalizing others with
  | nil =>
    cases each
    rfl
  | cons item items ih =>
    cases each with
    | cons first rest => rw [List.mapM_cons, decode_form item _ first, ih _ rest]; rfl

end

variable [Fieldwise form]

theorem decode_number {α : Type} [Codec α] [LawfulCodec α] (value : α) (json : Json)
    (number : ∃ text, encode value = .number text) (same : form (encode value) json) :
    decode json = some value := by
  obtain ⟨text, written⟩ := number
  rw [written] at same
  rw [Fieldwise.number same, ← written, LawfulCodec.decode_encode]

instance : FormCodec form UInt64 where
  decode_form n json same := decode_number n json ⟨_, rfl⟩ same

instance : FormCodec form UInt32 where
  decode_form n json same := decode_number n json ⟨_, rfl⟩ same

instance : FormCodec form UInt16 where
  decode_form n json same := decode_number n json ⟨_, rfl⟩ same

instance : FormCodec form UInt8 where
  decode_form n json same := decode_number n json ⟨_, rfl⟩ same

instance : FormCodec form (Option UInt64) where
  decode_form
    | none, json, same => by
      rw [Fieldwise.null same]
      rfl
    | some n, json, same => decode_number (some n) json ⟨_, rfl⟩ same

instance : FormCodec form Channel where
  decode_form channel json same := by
    change (kindName json).bind channelOfName = some channel
    rw [Fieldwise.name same]
    exact channelOfName_name channel

instance {α : Type} [Codec α] [FormCodec form α] : FormCodec form (List α) where
  decode_form items json same := by
    obtain ⟨others, rfl, each⟩ := Fieldwise.items same
    exact mapM_form items others each

theorem read_form {α : Type} {names : List String} {object : List (String × Json)}
    {read : List (Option Json) → Option α} {value : α} {json : Json}
    (named : object.map (·.1) = names) (distinct : names.Nodup) (same : form (.record object) json)
    (rebuilt : ∀ values, List.Forall₂ form (object.map (·.2)) values →
      read (values.map some) = some value) : (fields names json >>= read) = some value := by
  subst named
  obtain ⟨values, each, found⟩ := Fieldwise.fields distinct same
  rw [found]
  exact rebuilt values each

instance : FormCodec form Band where
  decode_form band json same := read_form (by rfl) (by decide) same (by
    rintro _ (_ | ⟨startBin, _ | ⟨endBin, _ | ⟨noiseFloor, _ | _⟩⟩⟩)
    simp [required_form startBin, required_form endBin, required_form noiseFloor])

instance : FormCodec form Tuning where
  decode_form tuning json same := read_form (by rfl) (by decide) same (by
    rintro _ (_ | ⟨base, _ | ⟨knee, _ | ⟨divisor, _ | ⟨divisorKnee, _ | _⟩⟩⟩⟩)
    simp [required_form base, required_form knee, required_form divisor,
      required_form divisorKnee])

instance : FormCodec form LevelEvent where
  decode_form event json same := read_form (by rfl) (by decide) same (by
    rintro _ (_ | ⟨band, _ | ⟨level, _ | _⟩⟩)
    simp [required_form band, required_form level])

instance : FormCodec form Rgb where
  decode_form rgb json same := read_form (by rfl) (by decide) same (by
    rintro _ (_ | ⟨red, _ | ⟨green, _ | ⟨blue, _ | _⟩⟩⟩)
    simp [required_form red, required_form green, required_form blue])

instance : FormCodec form ColorMap where
  decode_form map json same := read_form (by rfl) (by decide) same (by
    rintro _ (_ | ⟨channels, _ | _⟩)
    simp [required_form channels])

instance : FormCodec form Stats where
  decode_form stats json same := read_form (by rfl) (by decide) same (by
    rintro _ (_ | ⟨delivered, _ | ⟨analyzed, _ | ⟨overruns, _ | ⟨misses, _ | ⟨consumed,
      _ | ⟨emitted, _ | ⟨dropped, _ | _⟩⟩⟩⟩⟩⟩⟩)
    simp [required_form delivered, required_form analyzed, required_form overruns,
      required_form misses, required_form consumed, required_form emitted,
      required_form dropped])

instance : FormCodec form Config where
  decode_form config json same := read_form (by rfl) (by decide) same (by
    rintro _ (_ | ⟨blockSize, _ | ⟨sampleRate, _ | ⟨bands, _ | ⟨tuning, _ | ⟨interval,
      _ | ⟨floor, _ | ⟨capacity, _ | _⟩⟩⟩⟩⟩⟩⟩)
    simp [required_form blockSize, required_form sampleRate, required_form bands,
      required_form interval, defaulted_form _ tuning, defaulted_form _ floor,
      defaulted_form _ capacity])

end Codec

end BandLight
