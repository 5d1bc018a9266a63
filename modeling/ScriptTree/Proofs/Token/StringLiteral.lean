import ScriptTree.Node.Build
import ScriptTree.Proofs.Token.Position
import ScriptTree.Proofs.Token.Sequence

/-!
The text of a string literal that is made from a value is one token, whatever stands behind it, and the
value can be read from it.

The scanner finds the closing quote by counting backslashes, and the literal is escaped one character
after the other. What keeps them together is that behind each character of the value that has been
written the number of backslashes is even.
-/

namespace ScriptTree

open Character

namespace StringLiteral

-- Undoes the escapes of the text between the quotes.
def unescape : List Char → List Char
  | '\\' :: '"' :: text => '"' :: unescape text
  | '\\' :: '\\' :: text => '\\' :: unescape text
  | '\\' :: 'n' :: text => '\n' :: unescape text
  | '\\' :: 'r' :: text => '\r' :: unescape text
  | c :: text => c :: unescape text
  | [] => []

-- The value of a literal, which is what is escaped between its quotes.
def decode (raw : String) : String :=
  String.ofList (unescape raw.toList.tail.dropLast)

theorem unescape_cons {c : Char} (h : c ≠ '\\') (text : List Char) :
    unescape (c :: text) = c :: unescape text := by
  rw [unescape] <;> simp [h]

-- A character is written as it is, or as a backslash and another character.
theorem escape_cases (c : Char) :
    (escape c = [c] ∧ c ≠ '\\' ∧ c ≠ '"' ∧ isLineBreak c = false) ∨
      ∃ d, escape c = ['\\', d] ∧ isLineBreak d = false ∧
        ∀ text, unescape ('\\' :: d :: text) = c :: unescape text := by
  fun_cases escape c
  case case1 => exact .inr ⟨_, rfl, rfl, fun _ => rfl⟩
  case case2 => exact .inr ⟨_, rfl, rfl, fun _ => rfl⟩
  case case3 => exact .inr ⟨_, rfl, rfl, fun _ => rfl⟩
  case case4 => exact .inr ⟨_, rfl, rfl, fun _ => rfl⟩
  case case5 hquote hslash hn hr =>
    exact .inl ⟨rfl, hslash, hquote, by simpa [isLineBreak] using ⟨hr, hn⟩⟩

theorem unescape_flatMap_escape (value : List Char) : unescape (value.flatMap escape) = value := by
  induction value
  case nil => rfl
  case cons c value ih =>
    rw [List.flatMap_cons]
    rcases escape_cases c with ⟨h, hc, -, -⟩ | ⟨d, h, -, hd⟩
    · rw [h, List.singleton_append, unescape_cons hc, ih]
    · rw [h, List.cons_append, List.singleton_append, hd, ih]

theorem toList_encode (value : String) :
    (encode value).toList = '"' :: (value.toList.flatMap escape ++ ['"']) := by
  rw [encode, String.toList_ofList, List.cons_append]

theorem decode_encode (value : String) : decode (encode value) = value := by
  rw [decode, toList_encode, List.tail_cons, List.dropLast_concat, unescape_flatMap_escape,
    String.ofList_toList]

theorem encode_injective : Function.Injective encode :=
  Function.LeftInverse.injective decode_encode

end StringLiteral

namespace Lexeme

theorem closesQuoted_flatMap_escape {behind : List Char} (hb : isEscaped behind = false)
    (value : List Char) :
    closesQuoted '"' behind (value.flatMap StringLiteral.escape ++ ['"']) := by
  induction value generalizing behind
  case nil => simp [closesQuoted, isLineBreak, hb]
  case cons c value ih =>
    rw [List.flatMap_cons]
    rcases StringLiteral.escape_cases c with ⟨h, hc, hquote, hbreak⟩ | ⟨d, h, hbreak, -⟩
    · have hb' : isEscaped (c :: behind) = false := by simp [isEscaped_cons, hc]
      simpa [h, closesQuoted, hbreak, hquote] using ih hb'
    · have hb' : isEscaped (d :: '\\' :: behind) = false := by simp [isEscaped_cons, hb]
      have hslash : isLineBreak '\\' = false := rfl
      simpa [h, closesQuoted, hbreak, hslash, isEscaped_cons, hb] using ih hb'

end Lexeme

theorem placeBehind_of_forall {text : List Char} (h : ∀ c ∈ text, isLineBreak c = false)
    (after : List Char) (line column : Nat) :
    placeBehind after (line, column) text = (line, column + text.length) := by
  induction text generalizing column
  case nil => rfl
  case cons c text ih =>
    obtain ⟨hc, h⟩ := List.forall_mem_cons.mp h
    have hends : endsLine c (text ++ after) = false := by
      simp only [isLineBreak, Bool.or_eq_false_iff] at hc
      simp [endsLine, hc]
    rw [placeBehind, hends, if_neg Bool.false_ne_true, ih h, List.length_cons, Nat.add_assoc,
      Nat.add_comm 1]

namespace StringLiteral

-- The one token of a source that is a string literal on one line.
def token (raw : String) : Token where
  kind := .string
  span := ⟨0, raw.utf8ByteSize⟩
  value := raw
  position := ⟨1, 1, 1, raw.length + 1⟩

-- What ends a source of one line.
def ending (source : String) : Token :=
  { Token.endOfInput source.utf8ByteSize with
    position := ⟨1, source.length + 1, 1, source.length + 1⟩ }

theorem closesQuoted_encode (value : String) :
    Lexeme.closesQuoted '"' ['"'] (value.toList.flatMap escape ++ ['"']) :=
  Lexeme.closesQuoted_flatMap_escape rfl _

theorem isLineBreak_of_mem_encode {value : String} : ∀ c ∈ (encode value).toList, isLineBreak c = false := by
  have h := Lexeme.quoted_append (closesQuoted_encode value) ⟨'"', by simp, by decide⟩ [] []
  rw [toList_encode]
  refine List.forall_mem_cons.mpr ⟨rfl, fun c hc => ?_⟩
  rw [← h] at hc
  exact Lexeme.quoted_isLineBreak _ _ _ c hc

-- The literal is cut off whole, and what stands behind it is left.
theorem scan_encode (nested : Scanner → List Token) (value rest : String) (keepTrivia : Bool) :
    let raw := encode value
    let s := (Scanner.ofSource (raw ++ rest) keepTrivia).scan nested
    s.1 = { kind := .string, span := ⟨0, raw.utf8ByteSize⟩, value := raw } ∧ s.2.ahead = rest.toList := by
  have ha : (Scanner.ofSource (encode value ++ rest) keepTrivia).ahead =
      '"' :: ((value.toList.flatMap escape ++ ['"']) ++ rest.toList) := by
    rw [Scanner.ofSource, String.toList_append, toList_encode, List.cons_append]
  have hp := Scanner.piece_of_closesQuoted nested (.ofSource (encode value ++ rest) keepTrivia) (.inl rfl)
    (closesQuoted_encode value) rest.toList
  simp only [Scanner.scan, ha, hp]
  rw [← toList_encode, String.ofList_toList, byteWidth_toList]
  simp [Scanner.ofSource, Scanner.advance, String.toList_append]

theorem tokens_encode (value rest : String) (keepTrivia : Bool) :
    ∃ s : Scanner, s.ahead = rest.toList ∧
      (Scanner.ofSource (encode value ++ rest) keepTrivia).tokens =
        { kind := .string, span := ⟨0, (encode value).utf8ByteSize⟩, value := encode value } :: s.tokens := by
  obtain ⟨htoken, hahead⟩ := scan_encode Scanner.tokens value rest keepTrivia
  have ha : (Scanner.ofSource (encode value ++ rest) keepTrivia).ahead ≠ [] := by
    simp [Scanner.ofSource, toList_encode]
  refine ⟨_, hahead, ?_⟩
  rw [Scanner.tokens_eq ha, htoken]
  rfl

theorem locate_encode (value rest : String) :
    let table := LineTable.ofSource (encode value ++ rest)
    table.locate 0 = (1, 1) ∧
      table.locate (encode value).utf8ByteSize = (1, (encode value).length + 1) := by
  have hstart := LineTable.locate_eq (List.nil_append (encode value ++ rest).toList).symm
  have hstop := LineTable.locate_eq (String.toList_append (s := encode value) (t := rest))
  rw [placeBehind_of_forall isLineBreak_of_mem_encode, byteWidth_toList, String.length_toList,
    Nat.add_comm 1] at hstop
  exact ⟨hstart, hstop⟩

theorem ofSource_encode (value rest : String) (keepTrivia : Bool) :
    ∃ s : Scanner, s.ahead = rest.toList ∧
      Token.ofSource (encode value ++ rest) keepTrivia = token (encode value) ::
        fillPositions (encode value ++ rest)
          (s.tokens ++ [.endOfInput (encode value ++ rest).utf8ByteSize]) := by
  obtain ⟨s, hs, htokens⟩ := tokens_encode value rest keepTrivia
  obtain ⟨hstart, hstop⟩ := locate_encode value rest
  refine ⟨s, hs, ?_⟩
  rw [Token.ofSource, Token.scan, htokens, List.cons_append, fillPositions, placeTokens]
  simp [Token.place, LineTable.position, hstart, hstop, placeEmbeddings, token, fillPositions]

end StringLiteral

open StringLiteral

-- The text of the literal is one token, and the same one if anything stands behind it. The value can be
-- read from it, so that different values have different texts.
theorem Node.stringLiteral_faithful :
    (∀ value, ∃ raw, (stringLiteral value).literal? = some (.string, raw) ∧ decode raw = value ∧
      ∀ keepTrivia, Token.ofSource raw keepTrivia = [token raw, ending raw] ∧
        ∀ rest, (Token.ofSource (raw ++ rest) keepTrivia).head? = some (token raw)) ∧
    Function.Injective fun value => (stringLiteral value).literal? := by
  constructor
  case left =>
    intro value
    refine ⟨encode value, rfl, decode_encode value, fun keepTrivia => ⟨?alone, fun rest => ?before⟩⟩
    case alone =>
      obtain ⟨s, hs, htokens⟩ := ofSource_encode value "" keepTrivia
      obtain ⟨-, hstop⟩ := locate_encode value ""
      rw [String.append_empty] at htokens hstop
      rw [htokens, Scanner.tokens_of_ahead_eq_nil hs]
      simp [fillPositions, placeTokens, Token.place, placeEmbeddings, Token.endOfInput,
        LineTable.position, hstop, ending]
    case before =>
      obtain ⟨s, -, htokens⟩ := ofSource_encode value rest keepTrivia
      rw [htokens, List.head?_cons]
  case right =>
    exact fun value value' h => encode_injective (Prod.mk.inj (Option.some.inj h)).2

end ScriptTree
