import BandLight.Proofs.JsonText
import Mathlib.Data.List.Basic

/-! Space between tokens means nothing: a value reads back from any text that has its
tokens in order with blanks before, between and behind them. In the tokens of a value a
number or a word never stands next to another scalar, so each ends where it was written to
end. -/
namespace BandLight.Json

def Token.text : Token → List Char
  | .openArray => ['[']
  | .closeArray => [']']
  | .openObject => ['\x7b']
  | .closeObject => ['\x7d']
  | .comma => [',']
  | .colon => [':']
  | .scalar value => write value

/-- A text of some tokens: any blanks before each of them and behind the last. -/
inductive Spaced : List Token → List Char → Prop
  | nil (blanks : List Char) (blank : ∀ c ∈ blanks, isSpace c = true) : Spaced [] blanks
  | cons (blanks : List Char) (token : Token) {tokens : List Token} {text : List Char}
      (blank : ∀ c ∈ blanks, isSpace c = true) (rest : Spaced tokens text) :
      Spaced (token :: tokens) (blanks ++ token.text ++ text)

theorem spaced_apart (tokens : List Token) :
    Spaced tokens (tokens.flatMap fun token => ' ' :: token.text) := by
  induction tokens with
  | nil => exact .nil [] (by simp)
  | cons token tokens ih => exact .cons [' '] token (by simp [isSpace]) ih

def Token.isMark : Token → Bool
  | .scalar _ => false
  | _ => true

def isAtom : Json → Bool
  | array _ | object _ => false
  | _ => true

def Marked (tokens : List Token) : Prop := ∀ token ∈ tokens.head?, token.isMark = true

/-- Each scalar is a proper one, and a mark or the end is behind it. -/
inductive Lexed : List Token → Prop
  | nil : Lexed []
  | mark {token : Token} {rest : List Token} (mark : token.isMark = true) (lexed : Lexed rest) :
      Lexed (token :: rest)
  | scalar {value : Json} {rest : List Token} (atom : value.isAtom = true)
      (formed : value.WellFormed) (marked : Marked rest) (lexed : Lexed rest) :
      Lexed (.scalar value :: rest)

theorem marked_cons {token : Token} (rest : List Token) (mark : token.isMark = true) :
    Marked (token :: rest) := by
  rintro _ ⟨⟩
  exact mark

mutual

theorem lexed_value : ∀ (value : Json) (rest : List Token), value.WellFormed → Marked rest →
    Lexed rest → Lexed (value.toTokens ++ rest)
  | .null, _, formed, marked, lexed | .bool _, _, formed, marked, lexed
  | .number _, _, formed, marked, lexed | .string _, _, formed, marked, lexed =>
      .scalar rfl formed marked lexed
  | .array items, rest, formed, _, lexed => by
    rw [toTokens, List.append_assoc, List.cons_append]
    exact .mark rfl (lexed_items items _ formed (marked_cons rest rfl) (.mark rfl lexed))
  | .object members, rest, formed, _, lexed => by
    rw [toTokens, List.append_assoc, List.cons_append]
    exact .mark rfl (lexed_members members _ formed (marked_cons rest rfl) (.mark rfl lexed))

theorem lexed_items : ∀ (items : List Json) (rest : List Token), WellFormedItems items →
    Marked rest → Lexed rest → Lexed (itemTokens items ++ rest)
  | [], _, _, _, lexed => lexed
  | [item], rest, formed, marked, lexed => lexed_value item rest formed.1 marked lexed
  | item :: next :: items, rest, formed, marked, lexed => by
    rw [itemTokens_cons, List.append_assoc]
    exact lexed_value item _ formed.1 (marked_cons _ rfl)
      (.mark rfl (lexed_items (next :: items) rest formed.2 marked lexed))

theorem lexed_members : ∀ (members : List (Literal × Json)) (rest : List Token),
    WellFormedMembers members → Marked rest → Lexed rest → Lexed (memberTokens members ++ rest)
  | [], _, _, _, lexed => lexed
  | [(_, value)], rest, formed, marked, lexed =>
      .scalar rfl trivial (marked_cons _ rfl)
        (.mark rfl (lexed_value value rest formed.1 marked lexed))
  | (key, value) :: next :: members, rest, formed, marked, lexed => by
    rw [memberTokens_cons, List.append_assoc]
    exact .scalar rfl trivial (marked_cons _ rfl) (.mark rfl
      (lexed_value value _ formed.1 (marked_cons _ rfl)
        (.mark rfl (lexed_members (next :: members) rest formed.2 marked lexed))))

end

theorem lexed_toTokens (value : Json) (formed : value.WellFormed) : Lexed value.toTokens := by
  have lexed := lexed_value value [] formed (by simp [Marked]) .nil
  rwa [List.append_nil] at lexed

theorem ends_blank (c : Char) (blank : isSpace c = true) (rest : List Char) : Ends (c :: rest) := by
  simp only [isSpace, Bool.or_eq_true, decide_eq_true_eq] at blank
  rcases blank with ((rfl | rfl) | rfl) | rfl <;> exact ends_cons _ rest (by decide) (by decide)

theorem tokens_blanks (blanks rest : List Char) (blank : ∀ c ∈ blanks, isSpace c = true) :
    tokensFrom .between (blanks ++ rest) = tokensFrom .between rest := by
  induction blanks with
  | nil => rfl
  | cons c blanks ih =>
    have skipped : advance .between c = some (.between, []) := by
      simp [advance, start, blank c List.mem_cons_self]
    rw [List.cons_append, tokensFrom_silent .between .between c _ skipped]
    exact ih fun d member => blank d (List.mem_cons_of_mem c member)

theorem start_mark (token : Token) (mark : token.isMark = true) :
    ∃ c, token.text = [c] ∧ start c = some (.between, [token]) ∧
      isNumberChar c = false ∧ isWordChar c = false := by
  cases token with
  | scalar value => cases mark
  | openArray => exact ⟨'[', rfl, rfl, by decide, by decide⟩
  | closeArray => exact ⟨']', rfl, rfl, by decide, by decide⟩
  | openObject => exact ⟨'\x7b', rfl, rfl, by decide, by decide⟩
  | closeObject => exact ⟨'\x7d', rfl, rfl, by decide, by decide⟩
  | comma => exact ⟨',', rfl, rfl, by decide, by decide⟩
  | colon => exact ⟨':', rfl, rfl, by decide, by decide⟩

theorem ends_spaced {tokens : List Token} {text : List Char} (spaced : Spaced tokens text)
    (marked : Marked tokens) : Ends text := by
  cases spaced with
  | nil _ blank =>
    cases text with
    | nil => simp [Ends]
    | cons c text => exact ends_blank c (blank c List.mem_cons_self) text
  | cons blanks token blank rest =>
    obtain ⟨c, text, -, number, word⟩ := start_mark token (marked token rfl)
    cases blanks with
    | nil =>
      rw [text]
      exact ends_cons c _ number word
    | cons d blanks => exact ends_blank d (blank d List.mem_cons_self) _

theorem toTokens_atom (value : Json) (atom : value.isAtom = true) :
    value.toTokens = [.scalar value] := by
  cases value <;> first | rfl | cases atom

theorem tokens_spaced {found : List Token} {text : List Char} (spaced : Spaced found text)
    (lexed : Lexed found) : tokens text = some found := by
  rw [tokens]
  induction spaced with
  | nil blanks blank =>
    rw [← List.append_nil blanks, tokens_blanks blanks [] blank]
    rfl
  | cons blanks token blank rest ih =>
    rw [List.append_assoc, tokens_blanks blanks _ blank]
    cases lexed with
    | mark mark lexed =>
      obtain ⟨c, text, marks, -⟩ := start_mark token mark
      rw [text, List.singleton_append, tokens_mark c token _ marks, ih lexed]
      rfl
    | scalar atom formed marked lexed =>
      -- What is behind the scalar, a blank, a mark or nothing, cannot belong to it.
      rw [Token.text, tokens_write _ _ formed (ends_spaced rest marked), toTokens_atom _ atom,
        ih lexed]
      rfl

/-- Space between the tokens of a value is not part of it. -/
theorem parse_spaced {value : Json} {text : List Char} (formed : value.WellFormed)
    (spaced : Spaced value.toTokens text) : parse (String.ofList text) = some value := by
  rw [parse, String.toList_ofList, tokens_spaced spaced (lexed_toTokens value formed)]
  exact ofTokens_toTokens value

end BandLight.Json
