import BandLight.Json.Records
import BandLight.Proofs.JsonText
import Mathlib.Data.List.TakeWhile

/-! The records of a pipeline read back from the text that they are written as. For each
type it is enough that its JSON form has proper numbers and decodes to the value; the rest
is the law of the text. -/
namespace BandLight.Json

theorem digit_char : ∀ n < 10, (Char.ofNat (48 + n)).isDigit = true ∧
    (Char.ofNat (48 + n)).toNat - 48 = n ∧ (0 < n → Char.ofNat (48 + n) ≠ '0') := by
  decide

theorem digits_isDigit (n : Nat) : ∀ c ∈ digits n, c.isDigit = true := by
  induction n using digits.induct with
  | case1 n small =>
    rw [digits, if_pos small]
    simpa using (digit_char n small).1
  | case2 n large ih =>
    rw [digits, if_neg large]
    intro c member
    rcases List.mem_append.mp member with inside | last
    · exact ih c inside
    · rw [List.mem_singleton.mp last]
      exact (digit_char (n % 10) (by omega)).1

theorem ofDigits_digits (n : Nat) : ofDigits (digits n) = n := by
  induction n using digits.induct with
  | case1 n small =>
    rw [digits, if_pos small]
    simpa [ofDigits] using (digit_char n small).2.1
  | case2 n large ih =>
    have last := (digit_char (n % 10) (by omega)).2.1
    rw [digits, if_neg large, ofDigits, List.foldl_append]
    change 10 * ofDigits (digits (n / 10)) + ((Char.ofNat (48 + n % 10)).toNat - 48) = n
    rw [ih, last]
    omega

/-- A positive number is written without a zero in front. -/
theorem digits_first (n : Nat) (positive : 0 < n) :
    ∃ c text, digits n = c :: text ∧ c ≠ '0' := by
  induction n using digits.induct with
  | case1 n small =>
    rw [digits, if_pos small]
    exact ⟨_, [], rfl, (digit_char n small).2.2 positive⟩
  | case2 n large ih =>
    obtain ⟨c, text, written, first⟩ := ih (by omega)
    rw [digits, if_neg large, written]
    exact ⟨c, _, rfl, first⟩

theorem isNumber_digits (n : Nat) : isNumber (digits n) = true := by
  by_cases positive : 0 < n
  · obtain ⟨c, text, written, first⟩ := digits_first n positive
    have all := digits_isDigit n
    rw [written] at all ⊢
    have digit := all c List.mem_cons_self
    have unsigned : c ≠ '-' := by
      rintro rfl
      cases digit
    have behind : text.dropWhile Char.isDigit = [] :=
      List.dropWhile_eq_nil_iff.mpr fun d member => all d (List.mem_cons_of_mem c member)
    simp [isNumber, unsigned, dropInteger, digit, behind, dropFraction, dropExponent]
  · obtain rfl : n = 0 := by omega
    rw [digits]
    rfl

theorem wellFormed_items (items : List Json) (each : ∀ item ∈ items, item.WellFormed) :
    WellFormedItems items := by
  induction items with
  | nil => trivial
  | cons item items ih =>
    exact ⟨each item List.mem_cons_self, ih fun other member =>
      each other (List.mem_cons_of_mem item member)⟩

theorem wellFormed_record (members : List (String × Json))
    (each : ∀ member ∈ members, member.2.WellFormed) : (record members).WellFormed := by
  induction members with
  | nil => trivial
  | cons member members ih =>
    exact ⟨each member List.mem_cons_self, ih fun other inside =>
      each other (List.mem_cons_of_mem member inside)⟩

end BandLight.Json

namespace BandLight

/-- What a type writes has proper numbers, and each value is decoded from what it is
encoded as. -/
class LawfulCodec (α : Type) [Codec α] : Prop where
  wellFormed : ∀ value : α, (Codec.encode value).WellFormed
  decode_encode : ∀ value : α, Codec.decode (Codec.encode value) = some value

attribute [simp] LawfulCodec.wellFormed LawfulCodec.decode_encode

namespace Codec
open Json LawfulCodec

theorem decodeBelow_ofNat (limit n : Nat) (below : n < limit) :
    decodeBelow limit (.ofNat n) = some n := by
  have all : (digits n).all Char.isDigit = true := List.all_eq_true.mpr (digits_isDigit n)
  simp [decodeBelow, ofNat, all, ofDigits_digits, below]

instance : LawfulCodec UInt64 where
  wellFormed n := isNumber_digits n.toNat
  decode_encode n := by
    simp [encode, decode, decodeBelow_ofNat _ _ n.toNat_lt_size]

instance : LawfulCodec UInt32 where
  wellFormed n := isNumber_digits n.toNat
  decode_encode n := by
    simp [encode, decode, decodeBelow_ofNat _ _ n.toNat_lt_size]

instance : LawfulCodec UInt16 where
  wellFormed n := isNumber_digits n.toNat
  decode_encode n := by
    simp [encode, decode, decodeBelow_ofNat _ _ n.toNat_lt_size]

instance : LawfulCodec UInt8 where
  wellFormed n := isNumber_digits n.toNat
  decode_encode n := by
    simp [encode, decode, decodeBelow_ofNat _ _ n.toNat_lt_size]

instance : LawfulCodec String where
  wellFormed _ := trivial
  decode_encode _ := congrArg some String.ofList_toList

/-- A number is never the null that stands for no number. -/
instance : LawfulCodec (Option UInt64) where
  wellFormed
    | none => trivial
    | some n => wellFormed n
  decode_encode
    | none => rfl
    | some n => congrArg (Option.map some) (decode_encode n)

instance {α : Type} [Codec α] [LawfulCodec α] : LawfulCodec (List α) where
  wellFormed items := wellFormed_items _ fun item member => by
    obtain ⟨value, _, rfl⟩ := List.mem_map.mp member
    exact wellFormed value
  decode_encode items := by
    change (items.map encode).mapM decode = some items
    rw [List.mapM_map, show decode ∘ encode = fun value : α => pure value from
      funext decode_encode, List.mapM_pure, List.map_id']
    rfl

theorem filter_record (object : List (String × Json)) (distinct : (object.map (·.1)).Nodup)
    (name : String) (value : Json) (named : (name, value) ∈ object) :
    (object.map fun member => ((some member.1.toList : Literal), member.2)).filter
      (·.1 = some name.toList) = [(some name.toList, value)] := by
  induction object with
  | nil => cases named
  | cons member object ih =>
    obtain ⟨fresh, distinct⟩ := List.nodup_cons.mp distinct
    rcases List.mem_cons.mp named with rfl | behind
    · have others : (object.map fun member => ((some member.1.toList : Literal), member.2)).filter
          (·.1 = some name.toList) = [] := by
        rw [List.filter_eq_nil_iff]
        intro entry inside same
        obtain ⟨other, present, rfl⟩ := List.mem_map.mp inside
        apply fresh
        have equal : other.1 = name := by simpa [String.toList_inj] using same
        exact List.mem_map.mpr ⟨other, present, equal⟩
      rw [List.map_cons, List.filter_cons_of_pos (by simp), others]
    · have other : member.1 ≠ name := by
        rintro rfl
        exact fresh (List.mem_map.mpr ⟨_, behind, rfl⟩)
      rw [List.map_cons, List.filter_cons_of_neg (by simp [String.toList_inj, other]),
        ih distinct behind]

theorem mapM_option {α β : Type} (items : List α) (f : α → Option β) (g : α → β)
    (each : ∀ item ∈ items, f item = some (g item)) : items.mapM f = some (items.map g) := by
  induction items with
  | nil => rfl
  | cons item items ih =>
    rw [List.mapM_cons, each item List.mem_cons_self,
      ih fun other member => each other (List.mem_cons_of_mem item member)]
    rfl

theorem fields_record (names : List String) (object : List (String × Json))
    (named : object.map (·.1) = names) (distinct : names.Nodup) :
    fields names (.record object) = some (object.map (some ·.2)) := by
  subst named
  have keys : (object.map fun member => ((some member.1.toList : Literal), member.2)).all
      (·.1.isSome) = true := by simp
  change members _ (object.map fun member => (some member.1.toList, member.2)) = _
  rw [members, if_pos keys, List.mapM_map]
  apply mapM_option
  intro member inside
  simp only [Function.comp_apply, filter_record object distinct member.1 member.2 inside]

theorem read_record {α : Type} {names : List String} {object : List (String × Json)}
    {read : List (Option Json) → Option α} {value : α} (named : object.map (·.1) = names)
    (distinct : names.Nodup) (rebuilt : read (object.map (some ·.2)) = some value) :
    (fields names (.record object) >>= read) = some value := by
  rw [fields_record names object named distinct]
  exact rebuilt

@[simp] theorem required_encode {α : Type} [Codec α] [LawfulCodec α] (value : α) :
    required (some (encode value)) = some value := decode_encode value

@[simp] theorem defaulted_encode {α : Type} [Codec α] [LawfulCodec α] (standard value : α) :
    defaulted standard (some (encode value)) = some value := decode_encode value

instance : LawfulCodec Band where
  wellFormed band := wellFormed_record _ (by simp)
  decode_encode band := read_record (by rfl) (by decide) (by simp)

instance : LawfulCodec Tuning where
  wellFormed tuning := wellFormed_record _ (by simp)
  decode_encode tuning := read_record (by rfl) (by decide) (by simp)

instance : LawfulCodec LevelEvent where
  wellFormed event := wellFormed_record _ (by simp)
  decode_encode event := read_record (by rfl) (by decide) (by simp)

instance : LawfulCodec Rgb where
  wellFormed rgb := wellFormed_record _ (by simp)
  decode_encode rgb := read_record (by rfl) (by decide) (by simp)

instance : LawfulCodec Stats where
  wellFormed stats := wellFormed_record _ (by simp)
  decode_encode stats := read_record (by rfl) (by decide) (by simp)

instance : LawfulCodec Config where
  wellFormed config := wellFormed_record _ (by simp)
  decode_encode config := read_record (by rfl) (by decide) (by simp)

theorem channelOfName_name (channel : Channel) :
    channelOfName (channelName channel).toList = some channel := by
  cases channel <;> rfl

instance : LawfulCodec Channel where
  wellFormed _ := trivial
  decode_encode channel := channelOfName_name channel

instance : LawfulCodec ColorMap where
  wellFormed map := wellFormed_record _ (by simp)
  decode_encode map := read_record (by rfl) (by decide) (by simp)

theorem wellFormed_event (kind : String) (payload : List (String × Json))
    (each : ∀ member ∈ payload, member.2.WellFormed) :
    (encodeEvent kind payload).WellFormed := by
  apply wellFormed_record
  simp [wellFormed_record payload each]

theorem tagged_event (kind : String) (payload : List (String × Json)) :
    tagged (encodeEvent kind payload) = some (kind.toList, some (.record payload)) := by
  simp [tagged, encodeEvent, Json.record, encode, Json.ofString, kindName]

theorem decode_event (kind : String) (payload : List (String × Json)) :
    decode (encodeEvent kind payload) = decodeEvent kind (some (.record payload)) := by
  change (tagged (encodeEvent kind payload)).bind
    (fun found => decodeEvent (String.ofList found.1) found.2) = _
  rw [tagged_event]
  exact congrArg (decodeEvent · _) String.ofList_toList

theorem decode_stopped : decode (encode Event.stopped) = some Event.stopped := by
  simp [encode, decode, tagged, Json.record, Json.ofString, kindName, decodeEvent]

instance : LawfulCodec Event where
  wellFormed
    | .bandLevel _ _ | .meanFrequency _ | .overrun _ | .deadlineMissed _ _ | .error _ =>
        wellFormed_event _ _ (by simp)
    | .stopped => wellFormed_record _ (by simp)
  decode_encode
    | .bandLevel _ _ | .meanFrequency _ | .overrun _ | .deadlineMissed _ _ | .error _ =>
        (decode_event _ _).trans (read_record (by rfl) (by decide) (by simp))
    | .stopped => decode_stopped

/-- Every value reads back from the text that it is written as, and what is read and
written once is written the same way again. -/
structure RoundTrips (α : Type) [Codec α] : Prop where
  read_write : ∀ value : α, (parse (compact (encode value))).bind decode = some value
  idempotent : ∀ text written, recode α text = some written → recode α written = some written

theorem roundTrips (α : Type) [Codec α] [LawfulCodec α] : RoundTrips α := by
  have again (value : α) : (parse (compact (encode value))).bind decode = some value := by
    rw [parse_compact _ (wellFormed value)]
    exact decode_encode value
  refine ⟨again, ?_⟩
  intro text written read
  obtain ⟨_, _, read⟩ := Option.bind_eq_some_iff.mp read
  obtain ⟨value, _, read⟩ := Option.bind_eq_some_iff.mp read
  cases read
  obtain ⟨json, parsed, decoded⟩ := Option.bind_eq_some_iff.mp (again value)
  exact Option.bind_eq_some_iff.mpr ⟨json, parsed,
    Option.bind_eq_some_iff.mpr ⟨value, decoded, rfl⟩⟩

theorem records_round_trip : RoundTrips Config ∧ RoundTrips Band ∧ RoundTrips Tuning ∧
    RoundTrips LevelEvent ∧ RoundTrips Event ∧ RoundTrips Rgb ∧ RoundTrips Channel ∧
    RoundTrips ColorMap ∧ RoundTrips Stats :=
  ⟨roundTrips Config, roundTrips Band, roundTrips Tuning, roundTrips LevelEvent,
    roundTrips Event, roundTrips Rgb, roundTrips Channel, roundTrips ColorMap, roundTrips Stats⟩

end Codec

end BandLight
