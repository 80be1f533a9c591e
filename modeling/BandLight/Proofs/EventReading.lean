import BandLight.Proofs.JsonArrangement

/-! Events read from their objects. An object has the kind of the event and its fields in
either order. Both are looked up as the fields of a record are, so an arrangement of the
object reads as the event, and what is missing or repeated at either level is refused. -/
namespace BandLight.Codec
open Json StrictCodec FormCodec

theorem filter_either {α : Type} (items : List α) (p q : α → Bool)
    (apart : ∀ item, p item = true → q item = false) :
    (items.filter fun item => p item || q item).Perm (items.filter p ++ items.filter q) := by
  induction items with
  | nil => exact .nil
  | cons item items ih =>
    cases first : p item with
    | true => simpa [List.filter_cons, first, apart item first] using ih
    | false =>
      cases second : q item with
      | true =>
        simpa [List.filter_cons, first, second] using (ih.cons item).trans List.perm_middle.symm
      | false => simpa [List.filter_cons, first, second] using ih

theorem filter_narrow {α : Type} (items : List α) (p q : α → Bool)
    (narrow : ∀ item, p item = true → q item = true) :
    items.filter p = (items.filter q).filter p := by
  rw [List.filter_filter]
  apply List.filter_congr
  intro item _
  cases inside : p item with
  | false => rfl
  | true => rw [narrow item inside, Bool.and_self]

theorem perm_two {α : Type} {items : List α} {first second : α}
    (order : items.Perm [first, second]) : items = [first, second] ∨ items = [second, first] := by
  obtain ⟨one, other, rfl⟩ := List.length_eq_two.mp order.length_eq
  have there : one ∈ [first, second] := order.mem_iff.mp List.mem_cons_self
  rcases List.mem_cons.mp there with rfl | there
  · have rest := List.perm_singleton.mp ((List.perm_cons one).mp order)
    exact .inl (congrArg (one :: ·) rest)
  · obtain rfl := List.mem_singleton.mp there
    have rest := (List.perm_cons one).mp (order.trans (.swap one first []))
    exact .inr (congrArg (one :: ·) (List.perm_singleton.mp rest))

theorem tagged_of_members {object : List (Literal × Json)} {tag : Json} {payload : Option Json}
    {kind : List Char} (found : members ["type", "payload"] object = some [some tag, payload])
    (named : kindName tag = some kind)
    (fits : ∀ value ∈ payload, Json.fits (Json.maxDepth - 1) value = true) :
    tagged (.object object) = some (kind, payload) := by
  obtain ⟨keys, held⟩ := (members_iff _ _ _).mp found
  obtain _ | ⟨type, _ | ⟨content, _⟩⟩ := held
  -- Both names are looked for at once, which finds the two members in the order of the text.
  have order := filter_either object (·.1 = some "type".toList) (·.1 = some "payload".toList)
    (by intro member same; rw [of_decide_eq_true same]; rfl)
  rw [type, content] at order
  rw [tagged, if_pos keys]
  cases payload with
  | none =>
    simp only [List.perm_singleton.mp order]
    simp [named]
  | some value =>
    have fit := fits value rfl
    rcases perm_two order with same | same <;> simp only [same] <;> simp [named, fit]

theorem members_of_tagged {object : List (Literal × Json)} {payload : Option Json}
    {kind : List Char} (read : tagged (.object object) = some (kind, payload)) :
    ∃ tag, members ["type", "payload"] object = some [some tag, payload] ∧
      kindName tag = some kind := by
  have types := filter_narrow object (·.1 = some "type".toList)
    (fun member => decide (member.1 = some "type".toList) ||
      decide (member.1 = some "payload".toList)) fun _ tag => (Bool.or_eq_true _ _).mpr (.inl tag)
  have contents := filter_narrow object (·.1 = some "payload".toList)
    (fun member => decide (member.1 = some "type".toList) ||
      decide (member.1 = some "payload".toList))
    fun _ content => (Bool.or_eq_true _ _).mpr (.inr content)
  have taken {first : Json} {content : Option Json}
      (read : (kindName first).map (fun kind => (kind, content)) = some (kind, payload)) :
      kindName first = some kind ∧ content = payload := by
    obtain ⟨name, named, same⟩ := Option.map_eq_some_iff.mp read
    cases same
    exact ⟨named, rfl⟩
  rw [tagged] at read
  split at read
  · next keys =>
    have holds {tag : Json} {content : Option Json}
        (type : Holds object "type" (some tag)) (inner : Holds object "payload" content) :
        members ["type", "payload"] object = some [some tag, content] :=
      (members_iff _ _ _).mpr ⟨keys, .cons type (.cons inner .nil)⟩
    simp only at read
    split at read
    · next member only =>
      obtain ⟨key, tag⟩ := member
      split at read
      · next isTag =>
        obtain rfl := of_decide_eq_true isTag
        obtain ⟨named, rfl⟩ := taken read
        rw [only] at types contents
        exact ⟨tag, holds types contents, named⟩
      · cases read
    · next first second both =>
      obtain ⟨key, front⟩ := first
      obtain ⟨other, back⟩ := second
      rw [both] at types contents
      split at read
      · next order =>
        rw [Bool.and_eq_true] at order
        obtain rfl := of_decide_eq_true order.1
        obtain rfl := of_decide_eq_true order.2
        obtain ⟨named, rfl⟩ := taken read
        exact ⟨front, holds types contents, named⟩
      · split at read
        · next order =>
          rw [Bool.and_eq_true, Bool.and_eq_true] at order
          obtain rfl := of_decide_eq_true order.1.1
          obtain rfl := of_decide_eq_true order.1.2
          obtain ⟨named, rfl⟩ := taken read
          exact ⟨back, holds types contents, named⟩
        · cases read
    · cases read
  · cases read

theorem depth_member {members : List (Literal × Json)} {key : Literal} {value : Json}
    (there : (key, value) ∈ members) : value.depth ≤ depthMembers members := by
  induction members with
  | nil => cases there
  | cons member members ih =>
    rcases List.mem_cons.mp there with rfl | behind
    · exact le_max_left _ _
    · exact (ih behind).trans (le_max_right _ _)

theorem kindName_rearranged {kind : String} {tag : Json} (same : Rearranged (encode kind) tag) :
    kindName tag = some kind.toList := by
  rw [rearranged_atom rfl same]
  rfl

theorem tagged_rearranged {kind : String} {payload json : Json} (emitted : payload.Emitted)
    (same : Rearranged (.record [("type", encode kind), ("payload", payload)]) json)
    (deep : json.depth ≤ maxDepth) :
    ∃ content, Rearranged payload content ∧ tagged json = some (kind.toList, some content) := by
  obtain ⟨_, _ | @⟨_, tag, _, _, written, _ | @⟨_, content, _, _, inner, _ | _⟩⟩, found⟩ :=
    @fields_rearranged ["type", "payload"] _ _ [] rfl (by decide) same
  rw [without_nil] at found
  cases same with
  | atom atom => cases atom
  | @object _ _ _ object _ _ _ =>
    have both : members ["type", "payload"] object = some [some tag, some content] := found
    obtain ⟨-, held⟩ := (members_iff _ _ _).mp both
    obtain _ | ⟨_, _ | ⟨holds, _⟩⟩ := held
    have shallow : content.depth ≤ maxDepth - 1 :=
      (depth_member holds.there).trans (Nat.le_sub_one_of_lt deep)
    refine ⟨content, inner, tagged_of_members both (kindName_rearranged written) ?_⟩
    rintro _ ⟨⟩
    exact fits_emitted content _ (inner.emitted emitted) shallow

theorem tagged_without {kind : String} {payload json : Json}
    (same : Rearranged (.record [("type", encode kind), ("payload", payload)]) json) :
    tagged (json.without ["payload"]) = some (kind.toList, none) := by
  obtain ⟨_, _ | @⟨_, tag, _, _, written, _ | ⟨_, _ | _⟩⟩, found⟩ :=
    @fields_rearranged ["type", "payload"] _ _ ["payload"] rfl (by decide) same
  cases same with
  | atom atom => cases atom
  | @object _ _ _ object _ _ _ =>
    have alone : members ["type", "payload"] (object.filter
        (·.1 ∉ ["payload"].map fun name => some name.toList)) = some [some tag, none] := found
    exact tagged_of_members alone (kindName_rearranged written) (by simp)

theorem decode_tagged {json : Json} {kind : String} {payload : Option Json}
    (read : tagged json = some (kind.toList, payload)) :
    decode json = decodeEvent kind payload := by
  change (tagged json).bind (fun found => decodeEvent (String.ofList found.1) found.2) = _
  rw [read]
  exact congrArg (decodeEvent · payload) String.ofList_toList

theorem read_content {α : Type} {names : List String} {object : List (String × Json)}
    {read : List (Option Json) → Option α} {value : α} {json : Json}
    (fields : object.map (·.1) = names) (distinct : names.Nodup)
    (same : Rearranged (.record object) json)
    (rebuilt : ∀ values, List.Forall₂ Rearranged (object.map (·.2)) values →
      read (values.map some) = some value) :
    (content names (some json) >>= read) = some value := by
  have plain : content names (some json) = Codec.fields names json := by
    cases same with
    | atom atom => cases atom
    | object _ _ _ => rfl
  rw [plain]
  exact read_form fields distinct same rebuilt

/-- An event with all that its object has a place for. -/
def complete : Event → Json
  | .stopped => .record [("type", encode "Stopped"), ("payload", .null)]
  | event => encode event

def kindOf : Event → String
  | .bandLevel _ _ => "BandLevel"
  | .meanFrequency _ => "MeanFrequency"
  | .overrun _ => "Overrun"
  | .deadlineMissed _ _ => "DeadlineMissed"
  | .error _ => "Error"
  | .stopped => "Stopped"

def payloadOf : Event → Json
  | .bandLevel band level => .record [("band", encode band), ("level", encode level)]
  | .meanFrequency hz => .record [("hz", encode hz)]
  | .overrun dropped => .record [("dropped_samples", encode dropped)]
  | .deadlineMissed elapsed budget =>
      .record [("elapsed_us", encode elapsed), ("budget_us", encode budget)]
  | .error message => .record [("message", encode message)]
  | .stopped => .null

theorem complete_eq (event : Event) :
    complete event = .record [("type", encode (kindOf event)), ("payload", payloadOf event)] := by
  cases event <;> rfl

theorem emitted_payload (event : Event) : (payloadOf event).Emitted := by
  cases event with
  | stopped => trivial
  | bandLevel | meanFrequency | overrun | deadlineMissed | error =>
    exact emitted_record _ (by simp)

theorem decodeEvent_payload (event : Event) (json : Json)
    (same : Rearranged (payloadOf event) json) :
    decodeEvent (kindOf event) (some json) = some event := by
  cases event with
  | bandLevel band level =>
    refine read_content (by rfl) (by decide) same ?_
    rintro _ (_ | ⟨band, _ | ⟨level, _ | _⟩⟩)
    simp [required_form band, required_form level]
  | meanFrequency hz =>
    refine read_content (by rfl) (by decide) same ?_
    rintro _ (_ | ⟨hz, _ | _⟩)
    simp [required_form hz]
  | overrun dropped =>
    refine read_content (by rfl) (by decide) same ?_
    rintro _ (_ | ⟨dropped, _ | _⟩)
    simp [required_form dropped]
  | deadlineMissed elapsed budget =>
    refine read_content (by rfl) (by decide) same ?_
    rintro _ (_ | ⟨elapsed, _ | ⟨budget, _ | _⟩⟩)
    simp [required_form elapsed, required_form budget]
  | error message =>
    refine read_content (by rfl) (by decide) same ?_
    rintro _ (_ | ⟨message, _ | _⟩)
    simp [required_form message]
  | stopped =>
    rw [rearranged_atom rfl same]
    rfl

theorem decode_complete (event : Event) (json : Json) (same : Rearranged (complete event) json)
    (deep : json.depth ≤ maxDepth) : decode json = some event := by
  rw [complete_eq] at same
  obtain ⟨inner, rearranged, found⟩ := tagged_rearranged (emitted_payload event) same deep
  rw [decode_tagged found]
  exact decodeEvent_payload event inner rearranged

theorem decode_stopped_alone (json : Json) (same : Rearranged (complete .stopped) json) :
    decode (json.without ["payload"]) = some Event.stopped := by
  rw [decode_tagged (tagged_without same)]
  rfl

def payloads : List (String × List (String × Schema)) :=
  [("BandLevel", [("band", schema UInt64), ("level", schema UInt8)]),
   ("MeanFrequency", [("hz", schema UInt32)]),
   ("Overrun", [("dropped_samples", schema UInt64)]),
   ("DeadlineMissed", [("elapsed_us", schema UInt64), ("budget_us", schema UInt64)]),
   ("Error", [("message", schema String)])]

/-- The object of an event or that of its fields is flawed, or the fields are missing. -/
inductive FlawedEvent : Json → Prop
  | outer {json : Json}
      (flawed : Flawed (.record ["payload"] [("type", .plain), ("payload", .plain)]) json) :
      FlawedEvent json
  | missing {members : List (Literal × Json)} {tag : Json} {kind : String}
      {fields : List (String × Schema)} (known : (kind, fields) ∈ payloads)
      (there : (some "type".toList, tag) ∈ members) (named : kindName tag = some kind.toList)
      (absent : ∀ member ∈ members, member.1 ≠ some "payload".toList) :
      FlawedEvent (.object members)
  | within {members : List (Literal × Json)} {tag payload : Json} {kind : String}
      {fields : List (String × Schema)} (known : (kind, fields) ∈ payloads)
      (there : (some "type".toList, tag) ∈ members) (named : kindName tag = some kind.toList)
      (inside : (some "payload".toList, payload) ∈ members)
      (flawed : Flawed (.record [] fields) payload) : FlawedEvent (.object members)

theorem refuse_content {α : Type} {names : List String} {fields : List (String × Schema)}
    {read : List (Option Json) → Option α} {payload : Option Json}
    (refused : ∀ json ∈ payload, Flawed (.record [] fields) json)
    (named : fields.map (·.1) = names)
    (accepted : ∀ values value, read values = some value →
      List.Forall₂ (Accepts []) fields values) :
    (content names payload >>= read) = none := by
  cases payload with
  | none => rfl
  | some json =>
    have flawed := refused json rfl
    have plain : content names (some json) = Codec.fields names json := by
      cases flawed <;> rfl
    rw [plain]
    exact refuse_record named accepted flawed

theorem refuse_payload {kind : String} {fields : List (String × Schema)} {payload : Option Json}
    (known : (kind, fields) ∈ payloads)
    (refused : ∀ json ∈ payload, Flawed (.record [] fields) json) :
    decodeEvent kind payload = none := by
  simp only [payloads, List.mem_cons, List.not_mem_nil, or_false, Prod.mk.injEq] at known
  rcases known with ⟨rfl, rfl⟩ | ⟨rfl, rfl⟩ | ⟨rfl, rfl⟩ | ⟨rfl, rfl⟩ | ⟨rfl, rfl⟩
  · refine refuse_content refused rfl ?_
    intro values event built
    split at built
    · simp only [Option.bind_eq_bind, Option.bind_eq_some_iff] at built
      obtain ⟨_, band, _, level, _⟩ := built
      exact .cons (accepts_required band) (.cons (accepts_required level) .nil)
    · cases built
  · refine refuse_content refused rfl ?_
    intro values event built
    split at built
    · simp only [Option.bind_eq_bind, Option.bind_eq_some_iff] at built
      obtain ⟨_, hz, _⟩ := built
      exact .cons (accepts_required hz) .nil
    · cases built
  · refine refuse_content refused rfl ?_
    intro values event built
    split at built
    · simp only [Option.bind_eq_bind, Option.bind_eq_some_iff] at built
      obtain ⟨_, dropped, _⟩ := built
      exact .cons (accepts_required dropped) .nil
    · cases built
  · refine refuse_content refused rfl ?_
    intro values event built
    split at built
    · simp only [Option.bind_eq_bind, Option.bind_eq_some_iff] at built
      obtain ⟨_, elapsed, _, budget, _⟩ := built
      exact .cons (accepts_required elapsed) (.cons (accepts_required budget) .nil)
    · cases built
  · refine refuse_content refused rfl ?_
    intro values event built
    split at built
    · simp only [Option.bind_eq_bind, Option.bind_eq_some_iff] at built
      obtain ⟨_, message, _⟩ := built
      exact .cons (accepts_required message) .nil
    · cases built

theorem refuse_event (json : Json) (flawed : FlawedEvent json) :
    (decode json : Option Event) = none := by
  have object : ∃ object, json = .object object := by
    cases flawed with
    | outer flawed => cases flawed <;> exact ⟨_, rfl⟩
    | missing => exact ⟨_, rfl⟩
    | within => exact ⟨_, rfl⟩
  obtain ⟨object, rfl⟩ := object
  change (tagged (.object object)).bind
    (fun found => decodeEvent (String.ofList found.1) found.2) = none
  rw [Option.bind_eq_none_iff]
  rintro ⟨kind, payload⟩ read
  obtain ⟨tag, found, named⟩ := members_of_tagged read
  obtain ⟨-, held⟩ := (members_iff _ _ _).mp found
  obtain _ | ⟨type, _ | ⟨inner, _⟩⟩ := held
  have whole (field : Option Json) : ∀ value ∈ field, ¬ Flawed .plain value := by
    rintro value - flawed
    cases flawed
  have renamed {other : Json} {name : String} (there : (some "type".toList, other) ∈ object)
      (same : kindName other = some name.toList) : String.ofList kind = name := by
    cases type.value there
    rw [named] at same
    cases same
    exact String.ofList_toList
  cases flawed with
  | outer flawed =>
    -- Neither the kind nor the content is flawed itself, so the outer object is sound.
    exact absurd flawed (sound_members found
      (.cons ⟨by rintro ⟨⟩, whole _⟩ (.cons ⟨fun _ => List.mem_singleton_self _, whole _⟩ .nil)))
  | missing known there same absent =>
    rw [renamed there same]
    apply refuse_payload known
    rw [inner.absent absent]
    rintro _ ⟨⟩
  | within known there same inside flawed =>
    rw [renamed there same]
    apply refuse_payload known
    rw [inner.value inside]
    rintro _ ⟨⟩
    exact flawed

end BandLight.Codec
