import BandLight.Json.Parser
import BandLight.Json.Printer
import Mathlib.Data.List.Basic

/-! The compact text of a JSON value reads back as the value. Each value is written as a
run of tokens: the tokenizer finds these tokens whatever follows the value, since nothing
that may follow can belong to a number or a word, and the parser takes them on its stack
as the value. -/
namespace BandLight.Json

/-- Nothing that follows belongs to a number or a word in front of it. -/
def Ends (rest : List Char) : Prop :=
  ∀ c ∈ rest.head?, isNumberChar c = false ∧ isWordChar c = false

mutual

def WellFormed : Json → Prop
  | null | bool _ | string _ => True
  | number text => isNumber text = true
  | array items => WellFormedItems items
  | object members => WellFormedMembers members

def WellFormedItems : List Json → Prop
  | [] => True
  | item :: items => item.WellFormed ∧ WellFormedItems items

def WellFormedMembers : List (Literal × Json) → Prop
  | [] => True
  | (_, value) :: members => value.WellFormed ∧ WellFormedMembers members

end

mutual

def toTokens : Json → List Token
  | null => [.scalar null]
  | bool value => [.scalar (bool value)]
  | number text => [.scalar (number text)]
  | string text => [.scalar (string text)]
  | array items => .openArray :: itemTokens items ++ [.closeArray]
  | object members => .openObject :: memberTokens members ++ [.closeObject]

def itemTokens : List Json → List Token
  | [] => []
  | [item] => toTokens item
  | item :: items => toTokens item ++ .comma :: itemTokens items

def memberTokens : List (Literal × Json) → List Token
  | [] => []
  | [(key, value)] => .scalar (string key) :: .colon :: toTokens value
  | (key, value) :: members =>
      .scalar (string key) :: .colon :: toTokens value ++ .comma :: memberTokens members

end

theorem tokensFrom_cons (place next : Place) (c : Char) (found : List Token) (text : List Char)
    (advanced : advance place c = some (next, found)) :
    tokensFrom place (c :: text) = (tokensFrom next text).map (found ++ ·) := by
  cases tail : tokensFrom next text <;> simp [tokensFrom, advanced, tail]

theorem tokensFrom_silent (place next : Place) (c : Char) (text : List Char)
    (advanced : advance place c = some (next, [])) :
    tokensFrom place (c :: text) = tokensFrom next text := by
  rw [tokensFrom_cons place next c [] text advanced]
  simp

/-- A value is complete where the next character is taken as the start of something new. -/
theorem tokensFrom_complete (place : Place) (value : Json) (rest : List Char)
    (last : finish place = some [.scalar value])
    (next : ∀ c ∈ rest.head?, advance place c =
      (start c).map fun next => (next.1, .scalar value :: next.2)) :
    tokensFrom place rest = (tokensFrom .between rest).map (.scalar value :: ·) := by
  cases rest with
  | nil =>
    rw [tokensFrom, last]
    rfl
  | cons c rest =>
    have advanced := next c rfl
    have plain : advance .between c = start c := rfl
    cases started : start c with
    | none => simp [tokensFrom, advanced, plain, started]
    | some other =>
      cases tail : tokensFrom other.1 rest <;>
        simp [tokensFrom, advanced, plain, started, tail]

theorem tokensFrom_number (text : List Char) (value : Json) (rest : List Char) (ends : Ends rest)
    (read : scalar? text.reverse = some value) :
    tokensFrom (.number text) rest = (tokensFrom .between rest).map (.scalar value :: ·) := by
  apply tokensFrom_complete
  · simp [finish, read]
  · intro c member
    simp only [advance, (ends c member).1, read, Bool.false_eq_true, if_false]
    cases start c <;> rfl

theorem tokensFrom_word (text : List Char) (value : Json) (rest : List Char) (ends : Ends rest)
    (read : scalar? text.reverse = some value) :
    tokensFrom (.word text) rest = (tokensFrom .between rest).map (.scalar value :: ·) := by
  apply tokensFrom_complete
  · simp [finish, read]
  · intro c member
    simp only [advance, (ends c member).2, read, Bool.false_eq_true, if_false]
    cases start c <;> rfl

theorem tokensFrom_gather (place : List Char → Place) (belongs : Char → Bool)
    (gathers : ∀ text c, belongs c = true → advance (place text) c = some (place (c :: text), []))
    (text taken rest : List Char) (all : ∀ c ∈ taken, belongs c = true) :
    tokensFrom (place text) (taken ++ rest) = tokensFrom (place (taken.reverse ++ text)) rest := by
  induction taken generalizing text with
  | nil => rfl
  | cons c taken ih =>
    rw [List.cons_append, tokensFrom_silent _ _ _ _ (gathers text c (all c (by simp))),
      ih (c :: text) fun d member => all d (by simp [member])]
    simp

theorem hexDigit_hexChar : ∀ n < 16, hexDigit (hexChar n) = some n := by
  decide

theorem tokensFrom_letter (letter c : Char) (pieces : List Piece) (rest : List Char)
    (other : letter ≠ 'u') (means : unescape letter = some c) :
    tokensFrom (.string pieces) ('\\' :: letter :: rest) =
      tokensFrom (.string (.char c :: pieces)) rest := by
  rw [tokensFrom_silent _ (.escape pieces) _ _ rfl,
    tokensFrom_silent _ (.string (.char c :: pieces)) _ _ (by simp [advance, other, means])]

theorem tokensFrom_code (first second third fourth : Char) (a b c d : Nat) (pieces : List Piece)
    (rest : List Char) (one : hexDigit first = some a) (two : hexDigit second = some b)
    (three : hexDigit third = some c) (four : hexDigit fourth = some d) :
    tokensFrom (.string pieces) ('\\' :: 'u' :: first :: second :: third :: fourth :: rest) =
      tokensFrom (.string (.ofCode (16 * (16 * (16 * a + b) + c) + d) :: pieces)) rest := by
  rw [tokensFrom_silent _ (.escape pieces) _ _ rfl, tokensFrom_silent _ (.code pieces 0 0) _ _ rfl,
    tokensFrom_silent _ (.code pieces 1 a) _ _ (by simp [advance, one]),
    tokensFrom_silent _ (.code pieces 2 (16 * a + b)) _ _ (by simp [advance, two]),
    tokensFrom_silent _ (.code pieces 3 (16 * (16 * a + b) + c)) _ _ (by simp [advance, three]),
    tokensFrom_silent _ (.string (.ofCode (16 * (16 * (16 * a + b) + c) + d) :: pieces)) _ _
      (by simp [advance, four])]

theorem ofCode_control (c : Char) (control : c.toNat < 32) : Piece.ofCode c.toNat = .char c := by
  have high : isHighSurrogate c.toNat = false := by
    simp only [isHighSurrogate, Bool.and_eq_false_iff, decide_eq_false_iff_not]
    omega
  have low : isLowSurrogate c.toNat = false := by
    simp only [isLowSurrogate, Bool.and_eq_false_iff, decide_eq_false_iff_not]
    omega
  rw [Piece.ofCode, high, low]
  exact congrArg Piece.char (Char.ofNat_toNat c)

theorem tokensFrom_escape (c : Char) (pieces : List Piece) (rest : List Char) :
    tokensFrom (.string pieces) (escape c ++ rest) =
      tokensFrom (.string (.char c :: pieces)) rest := by
  have control (code : Nat) (same : c.toNat = code) : Char.ofNat code = c := by
    rw [← same, Char.ofNat_toNat]
  unfold escape
  split
  · next same => exact tokensFrom_letter '"' c pieces rest (by decide) (by rw [same]; rfl)
  split
  · next same => exact tokensFrom_letter '\\' c pieces rest (by decide) (by rw [same]; rfl)
  split
  · next same => exact tokensFrom_letter 'n' c pieces rest (by decide) (by rw [same]; rfl)
  split
  · next same => exact tokensFrom_letter 'r' c pieces rest (by decide) (by rw [same]; rfl)
  split
  · next same => exact tokensFrom_letter 't' c pieces rest (by decide) (by rw [same]; rfl)
  split
  · next same =>
    exact tokensFrom_letter 'b' c pieces rest (by decide) (congrArg some (control 8 same))
  split
  · next same =>
    exact tokensFrom_letter 'f' c pieces rest (by decide) (congrArg some (control 12 same))
  split
  · next small =>
    have zero : hexDigit '0' = some 0 := by decide
    have whole : 16 * (16 * (16 * 0 + 0) + c.toNat / 16) + c.toNat % 16 = c.toNat := by omega
    have coded := tokensFrom_code '0' '0' (hexChar (c.toNat / 16)) (hexChar (c.toNat % 16)) 0 0
      (c.toNat / 16) (c.toNat % 16) pieces rest zero zero (hexDigit_hexChar _ (by omega))
      (hexDigit_hexChar _ (by omega))
    rw [whole, ofCode_control c small] at coded
    exact coded
  · next quote backslash _ _ _ _ _ large =>
    exact tokensFrom_silent _ _ _ _ (by simp [advance, quote, backslash, large])

theorem tokensFrom_text (text : List Char) (pieces : List Piece) (rest : List Char) :
    tokensFrom (.string pieces) (text.flatMap escape ++ rest) =
      tokensFrom (.string ((text.map Piece.char).reverse ++ pieces)) rest := by
  induction text generalizing pieces with
  | nil => rfl
  | cons c text ih =>
    rw [List.flatMap_cons, List.append_assoc, tokensFrom_escape, ih]
    simp

theorem assemble_char (text : List Char) : Piece.assemble (text.map Piece.char) = some text := by
  induction text with
  | nil => rfl
  | cons c text ih => simp [Piece.assemble, ih]

theorem quote_some (text : List Char) : quote (some text) = '"' :: text.flatMap escape ++ ['"'] :=
  rfl

theorem advance_quote : advance .between '"' = some (.string [], []) := rfl

theorem tokens_quote_some (text rest : List Char) :
    tokensFrom .between (quote (some text) ++ rest) =
      (tokensFrom .between rest).map (.scalar (string (some text)) :: ·) := by
  have closed : advance (.string ((text.map Piece.char).reverse ++ [])) '"' =
      some (.between, [.scalar (string (some text))]) := by
    simp [advance, assemble_char]
  rw [quote_some, List.append_assoc, List.cons_append, tokensFrom_silent _ _ _ _ advance_quote,
    tokensFrom_text, List.singleton_append, tokensFrom_cons _ _ _ _ _ closed]
  rfl

/-- Half of a surrogate pair is no text again. -/
theorem tokens_quote_none (rest : List Char) :
    tokensFrom .between (quote none ++ rest) =
      (tokensFrom .between rest).map (.scalar (string none) :: ·) := by
  have closed : advance (.string [.ofCode 0xD800]) '"' =
      some (.between, [.scalar (string none)]) := rfl
  have code := tokensFrom_code 'd' '8' '0' '0' 13 8 0 0 [] ('"' :: rest) (by decide) (by decide)
    (by decide) (by decide)
  rw [tokensFrom_cons _ _ _ _ _ closed] at code
  exact (tokensFrom_silent _ _ _ _ advance_quote).trans code

theorem tokens_quote (literal : Literal) (rest : List Char) :
    tokensFrom .between (quote literal ++ rest) =
      (tokensFrom .between rest).map (.scalar (string literal) :: ·) :=
  match literal with
  | some text => tokens_quote_some text rest
  | none => tokens_quote_none rest

/-- Between the two texts there are characters of a number only. -/
def Scanned (text rest : List Char) : Prop :=
  ∃ taken, text = taken ++ rest ∧ ∀ c ∈ taken, isNumberChar c = true

theorem Scanned.refl (text : List Char) : Scanned text text := ⟨[], rfl, by simp⟩

theorem Scanned.cons {text rest : List Char} (scanned : Scanned text rest) (c : Char)
    (first : isNumberChar c = true) : Scanned (c :: text) rest := by
  obtain ⟨taken, rfl, all⟩ := scanned
  refine ⟨c :: taken, rfl, ?_⟩
  intro d member
  rcases List.mem_cons.mp member with rfl | inside
  · exact first
  · exact all d inside

theorem Scanned.trans {text middle rest : List Char} (first : Scanned text middle)
    (second : Scanned middle rest) : Scanned text rest := by
  obtain ⟨taken, rfl, all⟩ := first
  obtain ⟨more, rfl, others⟩ := second
  refine ⟨taken ++ more, by rw [List.append_assoc], ?_⟩
  intro c member
  rcases List.mem_append.mp member with inside | behind
  · exact all c inside
  · exact others c behind

theorem isNumberChar_digit (c : Char) (digit : c.isDigit = true) : isNumberChar c = true := by
  simp [isNumberChar, digit]

theorem scanned_digits (text : List Char) : Scanned text (text.dropWhile Char.isDigit) := by
  refine ⟨text.takeWhile Char.isDigit, List.takeWhile_append_dropWhile.symm, ?_⟩
  intro c member
  exact isNumberChar_digit c (List.all_eq_true.mp List.all_takeWhile c member)

theorem dropDigits_scanned (text rest : List Char) (found : dropDigits text = some rest) :
    Scanned text rest := by
  unfold dropDigits at found
  split at found
  · next c text =>
    split at found
    · next digit =>
      cases found
      exact (scanned_digits text).cons c (isNumberChar_digit c digit)
    · cases found
  · cases found

theorem dropInteger_scanned (text rest : List Char) (found : dropInteger text = some rest) :
    (∃ c tail, text = c :: tail ∧ c.isDigit = true) ∧ Scanned text rest := by
  unfold dropInteger at found
  split at found
  · cases found
    exact ⟨⟨_, _, rfl, by decide⟩, (Scanned.refl rest).cons '0' (by decide)⟩
  · next c text _ =>
    split at found
    · next digit =>
      cases found
      exact ⟨⟨c, text, rfl, digit⟩, (scanned_digits text).cons c (isNumberChar_digit c digit)⟩
    · cases found
  · cases found

theorem dropFraction_scanned (text rest : List Char) (found : dropFraction text = some rest) :
    Scanned text rest := by
  unfold dropFraction at found
  split at found
  · exact (dropDigits_scanned _ rest found).cons '.' (by decide)
  · cases found
    exact .refl _

theorem dropExponent_scanned (text rest : List Char) (found : dropExponent text = some rest) :
    Scanned text rest := by
  unfold dropExponent at found
  split at found
  · next c text =>
    split at found
    · next exponent =>
      have first : isNumberChar c = true := by
        rcases exponent with rfl | rfl <;> decide
      refine Scanned.cons ?_ c first
      split at found
      · exact (dropDigits_scanned _ rest found).cons '+' (by decide)
      · exact (dropDigits_scanned _ rest found).cons '-' (by decide)
      · exact dropDigits_scanned text rest found
    · cases found
      exact .refl _
  · cases found
    exact .refl []

/-- A number starts with a digit or a sign and has no other characters than numbers have. -/
theorem isNumber_chars (text : List Char) (written : isNumber text = true) :
    (∃ c tail, text = c :: tail ∧ (c.isDigit = true ∨ c = '-')) ∧
      ∀ c ∈ text, isNumberChar c = true := by
  have plain (text : List Char)
      (found : (do dropExponent (← dropFraction (← dropInteger text))) = some []) :
      (∃ c tail, text = c :: tail ∧ c.isDigit = true) ∧ Scanned text [] := by
    obtain ⟨first, whole, found⟩ := Option.bind_eq_some_iff.mp found
    obtain ⟨second, fraction, found⟩ := Option.bind_eq_some_iff.mp found
    obtain ⟨starts, integer⟩ := dropInteger_scanned text first whole
    exact ⟨starts, (integer.trans (dropFraction_scanned first second fraction)).trans
      (dropExponent_scanned second [] found)⟩
  have all (text : List Char) (scanned : Scanned text []) : ∀ c ∈ text, isNumberChar c = true := by
    obtain ⟨taken, rfl, every⟩ := scanned
    rw [List.append_nil]
    exact every
  unfold isNumber at written
  rw [decide_eq_true_eq] at written
  split at written
  · next rest =>
    refine ⟨⟨'-', rest, rfl, .inr rfl⟩, all _ ((plain rest written).2.cons '-' (by decide))⟩
  · obtain ⟨⟨c, tail, rfl, digit⟩, scanned⟩ := plain text written
    exact ⟨⟨c, tail, rfl, .inl digit⟩, all _ scanned⟩

theorem start_number (c : Char) (first : c.isDigit = true ∨ c = '-') :
    start c = some (.number [c], []) := by
  rcases first with digit | rfl
  · have other (d : Char) (no : d.isDigit = false) : c ≠ d := by
      rintro rfl
      rw [digit] at no
      cases no
    simp [start, isSpace, digit, other ' ' (by decide), other '\t' (by decide),
      other '\n' (by decide), other '\r' (by decide), other '[' (by decide),
      other ']' (by decide), other '\x7b' (by decide), other '\x7d' (by decide),
      other ',' (by decide), other ':' (by decide), other '"' (by decide)]
  · rfl

theorem tokens_number (text : List Char) (written : isNumber text = true) (rest : List Char)
    (ends : Ends rest) : tokensFrom .between (text ++ rest) =
      (tokensFrom .between rest).map (.scalar (number text) :: ·) := by
  obtain ⟨⟨c, tail, rfl, first⟩, all⟩ := isNumber_chars text written
  rw [List.cons_append, tokensFrom_silent .between (.number [c]) c _ (start_number c first),
    tokensFrom_gather .number isNumberChar (fun text c belongs => by simp [advance, belongs])
      [c] tail rest fun d member => all d (by simp [member])]
  apply tokensFrom_number _ _ _ ends
  simp [scalar?, written]

theorem tokens_word (value : Json) (c : Char) (text rest : List Char) (ends : Ends rest)
    (starts : start c = some (.word [c], [])) (all : text.all isWordChar = true)
    (read : scalar? (c :: text) = some value) : tokensFrom .between (c :: text ++ rest) =
      (tokensFrom .between rest).map (.scalar value :: ·) := by
  rw [List.cons_append, tokensFrom_silent .between (.word [c]) c _ starts,
    tokensFrom_gather .word isWordChar (fun text c belongs => by simp [advance, belongs])
      [c] text rest (List.all_eq_true.mp all)]
  apply tokensFrom_word _ _ _ ends
  simp [read]

theorem tokens_mark (c : Char) (token : Token) (rest : List Char)
    (marks : start c = some (.between, [token])) : tokensFrom .between (c :: rest) =
      (tokensFrom .between rest).map (token :: ·) :=
  tokensFrom_cons .between .between c [token] rest marks

theorem ends_cons (c : Char) (rest : List Char) (number : isNumberChar c = false)
    (word : isWordChar c = false) : Ends (c :: rest) := by
  rintro _ ⟨⟩
  exact ⟨number, word⟩

theorem writeItems_cons (item next : Json) (items : List Json) :
    writeItems (item :: next :: items) = write item ++ ',' :: writeItems (next :: items) := rfl

theorem writeMembers_cons (key : Literal) (value : Json) (next : Literal × Json)
    (members : List (Literal × Json)) : writeMembers ((key, value) :: next :: members) =
      quote key ++ ':' :: write value ++ ',' :: writeMembers (next :: members) := rfl

theorem itemTokens_cons (item next : Json) (items : List Json) :
    itemTokens (item :: next :: items) = toTokens item ++ .comma :: itemTokens (next :: items) :=
  rfl

theorem memberTokens_cons (key : Literal) (value : Json) (next : Literal × Json)
    (members : List (Literal × Json)) : memberTokens ((key, value) :: next :: members) =
      .scalar (string key) :: .colon :: toTokens value ++ .comma :: memberTokens (next :: members) :=
  rfl

mutual

theorem tokens_write : ∀ (value : Json) (rest : List Char), value.WellFormed → Ends rest →
    tokensFrom .between (write value ++ rest) =
      (tokensFrom .between rest).map (value.toTokens ++ ·)
  | .null, rest, _, ends => tokens_word .null 'n' ['u', 'l', 'l'] rest ends rfl rfl rfl
  | .bool true, rest, _, ends =>
      tokens_word (.bool true) 't' ['r', 'u', 'e'] rest ends rfl rfl rfl
  | .bool false, rest, _, ends =>
      tokens_word (.bool false) 'f' ['a', 'l', 's', 'e'] rest ends rfl rfl rfl
  | .number text, rest, formed, ends => tokens_number text formed rest ends
  | .string literal, rest, _, _ => tokens_quote literal rest
  | .array items, rest, formed, _ => by
    have inner := tokens_writeItems items (']' :: rest) formed
      (ends_cons ']' rest (by decide) (by decide))
    rw [tokens_mark ']' .closeArray rest rfl] at inner
    rw [write, List.append_assoc, List.cons_append, tokens_mark '[' .openArray _ rfl,
      List.singleton_append, inner]
    simp [toTokens, Function.comp_def]
  | .object members, rest, formed, _ => by
    have inner := tokens_writeMembers members ('\x7d' :: rest) formed
      (ends_cons '\x7d' rest (by decide) (by decide))
    rw [tokens_mark '\x7d' .closeObject rest rfl] at inner
    rw [write, List.append_assoc, List.cons_append, tokens_mark '\x7b' .openObject _ rfl,
      List.singleton_append, inner]
    simp [toTokens, Function.comp_def]

theorem tokens_writeItems : ∀ (items : List Json) (rest : List Char), WellFormedItems items →
    Ends rest → tokensFrom .between (writeItems items ++ rest) =
      (tokensFrom .between rest).map (itemTokens items ++ ·)
  | [], rest, _, _ => by simp [writeItems, itemTokens]
  | [item], rest, formed, ends => tokens_write item rest formed.1 ends
  | item :: next :: items, rest, formed, ends => by
    have first := tokens_write item (',' :: (writeItems (next :: items) ++ rest)) formed.1
      (ends_cons ',' _ (by decide) (by decide))
    rw [tokens_mark ',' .comma _ rfl, tokens_writeItems (next :: items) rest formed.2 ends] at first
    rw [writeItems_cons, List.append_assoc, List.cons_append, first]
    simp [itemTokens, Function.comp_def]

theorem tokens_writeMembers : ∀ (members : List (Literal × Json)) (rest : List Char),
    WellFormedMembers members → Ends rest → tokensFrom .between (writeMembers members ++ rest) =
      (tokensFrom .between rest).map (memberTokens members ++ ·)
  | [], rest, _, _ => by simp [writeMembers, memberTokens]
  | [(key, value)], rest, formed, ends => by
    rw [writeMembers, List.append_assoc, List.cons_append, tokens_quote,
      tokens_mark ':' .colon _ rfl, tokens_write value rest formed.1 ends]
    simp [memberTokens, Function.comp_def]
  | (key, value) :: next :: members, rest, formed, ends => by
    have first := tokens_write value (',' :: (writeMembers (next :: members) ++ rest)) formed.1
      (ends_cons ',' _ (by decide) (by decide))
    rw [tokens_mark ',' .comma _ rfl,
      tokens_writeMembers (next :: members) rest formed.2 ends] at first
    rw [writeMembers_cons, List.append_assoc, List.append_assoc, List.cons_append, tokens_quote,
      List.cons_append, tokens_mark ':' .colon _ rfl, first]
    simp [memberTokens, Function.comp_def]

end

theorem tokens_compact (value : Json) (formed : value.WellFormed) :
    tokens (compact value).toList = some value.toTokens := by
  have read := tokens_write value [] formed (by simp [Ends])
  rw [List.append_nil] at read
  rw [compact, String.toList_ofList, tokens, read]
  simp [tokensFrom, finish]

theorem foldlM_move (position next : Position) (token : Token) (rest : List Token)
    (moved : move position token = some next) :
    (token :: rest).foldlM move position = rest.foldlM move next := by
  rw [List.foldlM_cons, moved]
  rfl

/-- What starts a value does not end the array around it. -/
theorem foldlM_firstItem (stack : List Frame) (value : Json) (rest : List Token) :
    (value.toTokens ++ rest).foldlM move (.firstItem stack) =
      (value.toTokens ++ rest).foldlM move (.value (.array [] :: stack)) := by
  cases value <;> rfl

mutual

theorem foldlM_value : ∀ (value : Json) (stack : List Frame) (rest : List Token),
    (value.toTokens ++ rest).foldlM move (.value stack) = rest.foldlM move (.after stack value)
  | .null, _, _ | .bool _, _, _ | .number _, _, _ | .string _, _, _ | .array [], _, _
  | .object [], _, _ => rfl
  | .array (item :: items), stack, rest => by
    have opened : (itemTokens (item :: items) ++ .closeArray :: rest).foldlM move
        (.firstItem stack) = (itemTokens (item :: items) ++ .closeArray :: rest).foldlM move
          (.value (.array [] :: stack)) := by
      cases items with
      | nil => exact foldlM_firstItem stack item _
      | cons next items =>
        rw [itemTokens_cons, List.append_assoc]
        exact foldlM_firstItem stack item _
    rw [toTokens, List.append_assoc, List.cons_append, foldlM_move _ (.firstItem stack) _ _ rfl,
      List.singleton_append, opened, foldlM_items (item :: items) [] stack rest nofun]
    rfl
  | .object (member :: members), stack, rest => by
    have opened : (memberTokens (member :: members) ++ .closeObject :: rest).foldlM move
        (.firstKey stack) = (memberTokens (member :: members) ++ .closeObject :: rest).foldlM move
          (.key stack []) := by
      cases members <;> rfl
    rw [toTokens, List.append_assoc, List.cons_append, foldlM_move _ (.firstKey stack) _ _ rfl,
      List.singleton_append, opened, foldlM_members (member :: members) [] stack rest nofun]
    rfl

theorem foldlM_items : ∀ (items taken : List Json) (stack : List Frame) (rest : List Token),
    items ≠ [] → (itemTokens items ++ .closeArray :: rest).foldlM move
      (.value (.array taken :: stack)) =
        rest.foldlM move (.after stack (.array (taken.reverse ++ items)))
  | [item], taken, stack, rest, _ => by
    rw [itemTokens, foldlM_value item, foldlM_move _ _ _ _ rfl, List.reverse_cons]
  | item :: next :: items, taken, stack, rest, _ => by
    rw [itemTokens_cons, List.append_assoc, foldlM_value item, List.cons_append,
      foldlM_move _ _ _ _ rfl, foldlM_items (next :: items) (item :: taken) stack rest nofun]
    simp

theorem foldlM_members : ∀ (members taken : List (Literal × Json)) (stack : List Frame)
    (rest : List Token), members ≠ [] →
    (memberTokens members ++ .closeObject :: rest).foldlM move (.key stack taken) =
      rest.foldlM move (.after stack (.object (taken.reverse ++ members)))
  | [(key, value)], taken, stack, rest, _ => by
    rw [memberTokens, List.cons_append, foldlM_move _ (.colon stack taken key) _ _ rfl,
      List.cons_append, foldlM_move _ (.value (.object taken key :: stack)) _ _ rfl,
      foldlM_value value, foldlM_move _ _ _ _ rfl, List.reverse_cons]
  | (key, value) :: next :: members, taken, stack, rest, _ => by
    rw [memberTokens_cons, List.append_assoc, List.cons_append,
      foldlM_move _ (.colon stack taken key) _ _ rfl, List.cons_append,
      foldlM_move _ (.value (.object taken key :: stack)) _ _ rfl, foldlM_value value,
      List.cons_append, foldlM_move _ (.key stack ((key, value) :: taken)) _ _ rfl,
      foldlM_members (next :: members) ((key, value) :: taken) stack rest nofun]
    simp

end

theorem ofTokens_toTokens (value : Json) : ofTokens value.toTokens = some value := by
  have taken := foldlM_value value [] []
  rw [List.append_nil] at taken
  rw [ofTokens, taken]
  rfl

theorem parse_compact (value : Json) (formed : value.WellFormed) :
    parse (compact value) = some value := by
  rw [parse, tokens_compact value formed]
  exact ofTokens_toTokens value

end BandLight.Json
