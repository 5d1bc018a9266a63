import ScriptTree.Print.Writer
import ScriptTree.Proofs.Parse.Signs
import ScriptTree.Proofs.Token.Moved
import ScriptTree.Proofs.Token.Tiling
import ScriptTree.Parse.Expression

/-!
The text of a token, scanned once more where something else stands behind it.

A token ends where its text cannot go on. Whether what stands behind it goes on with it is for most
kinds a question of one character.
-/

namespace ScriptTree

open Character

namespace Character

-- A question about some characters is decided one by one for these, and not for all characters there are.
instance (priority := 2000) decidableForallMemList {p : Char → Prop} [DecidablePred p] (cs : List Char) :
    Decidable (∀ c ∈ cs, p c) :=
  List.decidableBAll p cs

instance (priority := 2000) decidableForallMemOption {p : Char → Prop} [DecidablePred p] (c? : Option Char) :
    Decidable (∀ c ∈ c?, p c) :=
  decidable_of_iff (∀ c ∈ c?.toList, p c) (by simp)

end Character

namespace Operator

-- The characters that make something longer of the operator: another operator, or a comment.
def continuations (operator : Operator) : List Char :=
  (all.filterMap fun op =>
    if operator.spelling.toList.isPrefixOf op.spelling.toList then
      (op.spelling.toList.drop operator.spelling.toList.length).head?
    else none) ++ if operator == .slash then ['/', '*'] else []

theorem mem_all (operator : Operator) : operator ∈ all := by
  cases operator <;> decide

-- Of the lengths that are tried, those in front of the operator's own are longer.
theorem lengths_of_spelling {operator : Operator} (h : operator.isWord = false) : ∃ front back,
    [4, 3, 2, 1] = front ++ operator.spelling.toList.length :: back ∧
      ∀ n ∈ front, operator.spelling.toList.length < n := by
  have hlength : operator.spelling.toList.length ∈ [1, 2, 3, 4] := by
    cases operator <;> first | contradiction | decide
  generalize operator.spelling.toList.length = length at hlength
  simp only [List.mem_cons, List.not_mem_nil, or_false] at hlength
  obtain rfl | rfl | rfl | rfl := hlength
  · exact ⟨[4, 3, 2], [], rfl, by decide⟩
  · exact ⟨[4, 3], [1], rfl, by decide⟩
  · exact ⟨[4], [2, 1], rfl, by decide⟩
  · exact ⟨[], [3, 2, 1], rfl, by decide⟩

-- Longer than the operator there is nothing.
theorem ofSpelling?_append {operator : Operator} {c : Char} {text : List Char}
    (h : c ∉ operator.continuations) :
    ofSpelling? (String.ofList (operator.spelling.toList ++ c :: text)) = none := by
  rw [Option.eq_none_iff_forall_ne_some]
  intro op hop
  have hop := congrArg String.toList (ofSpelling?_spelling hop)
  rw [String.toList_ofList] at hop
  refine h (List.mem_append_left _ (List.mem_filterMap.mpr ⟨op, mem_all op, ?_⟩))
  rw [hop]
  simp

-- A search that finds nothing else first finds what it is to find.
theorem findSome?_of_settled {find : Nat → Option Operator} {operator : Operator} {n : Nat} {front back : List Nat}
    (hfront : ∀ m ∈ front, find m = none ∨ find m = some operator) (hn : find n = some operator) :
    (front ++ n :: back).findSome? find = some operator := by
  induction front
  case nil => simp [hn]
  case cons m front ih =>
    have ih := ih fun k hk => hfront k (List.mem_cons_of_mem m hk)
    obtain hm | hm := hfront m List.mem_cons_self <;> simp [hm, ih]

theorem longestAt?_append {operator : Operator} {rest : List Char} (hw : operator.isWord = false)
    (h : ∀ c ∈ rest.head?, c ∉ operator.continuations) :
    longestAt? (operator.spelling.toList ++ rest) = some operator := by
  let found (n : Nat) : Option Operator :=
    ofSpelling? (String.ofList ((operator.spelling.toList ++ rest).take n))
  have hexact : found operator.spelling.toList.length = some operator := by
    simp [found, ofSpelling?_of_spelling]
  have hlonger n (hn : operator.spelling.toList.length < n) : found n = none ∨ found n = some operator := by
    obtain ⟨m, rfl⟩ := Nat.exists_eq_add_of_lt hn
    cases rest
    case nil => exact .inr (by simp [found, List.take_of_length_le, Nat.add_assoc, ofSpelling?_of_spelling])
    case cons c rest =>
      refine .inl ?_
      have htake : (operator.spelling.toList ++ c :: rest).take (operator.spelling.toList.length + m + 1) =
          operator.spelling.toList ++ c :: rest.take m := by
        rw [Nat.add_assoc, List.take_length_add_append, List.take_succ_cons]
      simp only [found, htake]
      exact ofSpelling?_append (h c rfl)
  obtain ⟨front, back, hlengths, hfront⟩ := lengths_of_spelling hw
  change [4, 3, 2, 1].findSome? found = some operator
  rw [hlengths]
  exact findSome?_of_settled (fun n hn => hlonger n (hfront n hn)) hexact

end Operator

namespace Character

-- The characters of no word.
def structural : List Char :=
  [' ', '\t', '\r', '\n', '"', '\'', '\x60'] ++ operatorCharacters

theorem mem_structural {c : Char} (h : isWord c = false) : c ∈ structural := by
  simp only [isWord, isBlank, isLineBreak, isQuote, isOperator, Bool.and_eq_false_iff,
    Bool.not_eq_false', Bool.or_eq_true, beq_iff_eq, List.contains_iff_mem] at h
  simp only [structural, List.mem_append, List.mem_cons, List.not_mem_nil, or_false]
  grind

theorem not_isPrintedWord_of_structural : ∀ c ∈ structural, isPrintedWord c = false := by
  decide +kernel

theorem isWord_of_isPrintedWord {c : Char} (h : isPrintedWord c) : isWord c := by
  by_contra hc
  simp [not_isPrintedWord_of_structural c (mem_structural (by simpa using hc))] at h

theorem isWord_of_isHexDigit {c : Char} (h : isHexDigit c) : isWord c := by
  by_contra hc
  have hall : ∀ c ∈ structural, isHexDigit c = false := by decide +kernel
  simp [hall c (mem_structural (by simpa using hc))] at h

theorem isWord_of_isDigit {c : Char} (h : c.isDigit) : isWord c :=
  isWord_of_isHexDigit (by simp [isHexDigit, h])

end Character

namespace Lexeme

theorem takeWhile_append {p : Char → Bool} {text rest : List Char} (h : ∀ c ∈ text, p c)
    (hr : ∀ c ∈ rest.head?, p c = false) : (text ++ rest).takeWhile p = text := by
  rw [List.takeWhile_append_of_pos h]
  cases rest
  case nil => simp
  case cons c rest => simp [hr c rfl]

-- Does the text end with the quote that closes it?
def closesQuoted (quote : Char) (behind : List Char) : List Char → Bool
  | [] => false
  | c :: text =>
    if isLineBreak c then false
    else if c == quote && !isEscaped behind then text.isEmpty
    else closesQuoted quote (c :: behind) text

theorem quoted_append {quote : Char} {behind text : List Char} (h : closesQuoted quote behind text)
    (hb : ∃ c ∈ behind, c ≠ '\\') (more rest : List Char) :
    quoted quote (behind ++ more) (text ++ rest) = text := by
  induction text generalizing behind
  case nil => cases h
  case cons c text ih =>
    rw [closesQuoted] at h
    rw [List.cons_append, quoted, isEscaped_append hb]
    split at h
    case isTrue => cases h
    case isFalse hbreak =>
      rw [if_neg hbreak]
      split at h
      case isTrue hclose =>
        rw [if_pos hclose, List.isEmpty_iff.mp h]
      case isFalse hclose =>
        obtain ⟨d, hd, hne⟩ := hb
        rw [if_neg hclose, ← List.cons_append, ih h ⟨d, .tail _ hd, hne⟩]

theorem getLast?_of_closesQuoted {quote : Char} {behind text : List Char}
    (h : closesQuoted quote behind text) : text.getLast? = some quote := by
  induction text generalizing behind
  case nil => cases h
  case cons c text ih =>
    rw [closesQuoted] at h
    split at h
    case isTrue => cases h
    case isFalse =>
      split at h
      case isTrue hclose =>
        have hc : c = quote := by simp_all
        rw [List.isEmpty_iff.mp h, hc]
        rfl
      case isFalse => rw [List.getLast?_cons, ih h, Option.getD_some]

theorem regex?_append {behind behind' text found rest : List Char}
    (h : regex? (behind ++ behind') text = some found) (hb : ∃ c ∈ behind, c ≠ '\\')
    (hr : ∀ c ∈ rest.head?, c.isAlpha = false) (more : List Char) :
    regex? (behind ++ more) (found ++ rest) = some found := by
  induction text generalizing behind found
  case nil => cases h
  case cons c text ih =>
    rw [regex?, isEscaped_append hb] at h
    split at h
    case isTrue => cases h
    case isFalse hbreak =>
      split at h
      case isTrue hclose =>
        cases h
        rw [List.cons_append, regex?, if_neg hbreak, isEscaped_append hb, if_pos hclose,
          takeWhile_append (fun c hc => List.mem_takeWhile_imp hc) hr]
      case isFalse hclose =>
        obtain ⟨found, hfound, rfl⟩ := Option.map_eq_some_iff.mp h
        obtain ⟨d, hd, hne⟩ := id hb
        have h := @ih (c :: behind) found hfound ⟨d, .tail _ hd, hne⟩
        rw [List.cons_append, regex?, if_neg hbreak, isEscaped_append hb, if_neg hclose]
        exact congrArg (Option.map (c :: ·)) h

theorem regex?_ne_nil {behind text found : List Char} (h : regex? behind text = some found) :
    found ≠ [] := by
  cases text
  case nil => cases h
  case cons c text =>
    rw [regex?] at h
    split at h
    case isTrue => cases h
    case isFalse =>
      split at h
      case isTrue =>
        cases h
        simp
      case isFalse =>
        obtain ⟨_, _, rfl⟩ := Option.map_eq_some_iff.mp h
        simp

theorem ne_space_of_getLast?_regex? {behind text found : List Char} (h : regex? behind text = some found) :
    ∀ c ∈ found.getLast?, c ≠ ' ' := by
  induction text generalizing behind found
  case nil => cases h
  case cons c text ih =>
    rw [regex?] at h
    split at h
    case isTrue => cases h
    case isFalse =>
      split at h
      case isTrue hclose =>
        cases h
        have hc : c = '/' := by simp_all
        rintro d hd rfl
        rcases List.mem_cons.mp (List.mem_of_getLast? hd) with h | h
        · simp [hc] at h
        · exact absurd (List.mem_takeWhile_imp h) (by decide)
      case isFalse =>
        obtain ⟨found, hfound, rfl⟩ := Option.map_eq_some_iff.mp h
        have hd := List.getLast?_eq_some_getLast (regex?_ne_nil hfound)
        rw [List.getLast?_cons, hd]
        simpa using ih hfound _ hd

theorem isWord_of_mem_number {text : List Char} : ∀ c ∈ number text, isWord c ∨ c = '.' := by
  have hdigits {p : Char → Bool} (hp : ∀ c, p c → isWord c) (text : List Char) :
      ∀ c ∈ text.takeWhile p, isWord c ∨ c = '.' := fun c hc => .inl (hp c (List.mem_takeWhile_imp hc))
  have hhex := hdigits fun _ => isWord_of_isHexDigit
  have hdecimal := hdigits fun _ => isWord_of_isDigit
  fun_cases number text
  case case1 digits =>
    exact List.forall_mem_cons.mpr ⟨.inl rfl, List.forall_mem_cons.mpr ⟨.inl rfl, hhex digits⟩⟩
  case case2 digits =>
    exact List.forall_mem_cons.mpr ⟨.inl rfl, List.forall_mem_cons.mpr ⟨.inl rfl, hhex digits⟩⟩
  case case3 fraction _ _ _ =>
    exact List.forall_mem_append.mpr ⟨hdecimal _, List.forall_mem_cons.mpr ⟨.inr rfl, hdecimal _⟩⟩
  case case4 => exact hdecimal _

-- What goes on with decimal digits.
def fraction : List Char → List Char
  | '.' :: text => '.' :: text.takeWhile Char.isDigit
  | _ => []

-- Behind the first digit comes none of the letters that a hexadecimal number has there.
theorem number_of_digits {digits tail : List Char} (hd : ∀ c ∈ digits, c.isDigit)
    (ht : ∀ c ∈ tail.head?, c.isDigit = false)
    (hx : digits = ['0'] → ∀ c ∈ tail.head?, c ≠ 'x' ∧ c ≠ 'X') :
    number (digits ++ tail) = digits ++ fraction tail := by
  have hhex c text (hc : c = 'x' ∨ c = 'X') : digits ++ tail ≠ '0' :: c :: text := fun h => by
    rcases digits with _ | ⟨d, _ | ⟨d', digits⟩⟩
    case nil =>
      obtain rfl : tail = '0' :: c :: text := h
      exact absurd (ht '0' rfl) (by decide)
    case cons.nil =>
      obtain ⟨rfl, rfl⟩ := List.cons.inj h
      exact hc.elim (hx rfl c rfl).1 (hx rfl c rfl).2
    case cons.cons =>
      obtain ⟨rfl, -⟩ := List.cons.inj (List.cons.inj h).2
      have hdigit := hd d' (by simp)
      rcases hc with rfl | rfl <;> exact absurd hdigit (by decide)
  have hdrop : (digits ++ tail).dropWhile Char.isDigit = tail := by
    rw [List.dropWhile_append_of_pos hd]
    cases tail
    case nil => rfl
    case cons c tail => simp [ht c rfl]
  have htake := takeWhile_append hd ht
  rw [number.eq_def]
  split
  case h_1 h => exact absurd h (hhex 'x' _ (.inl rfl))
  case h_2 h => exact absurd h (hhex 'X' _ (.inr rfl))
  case h_3 =>
    rw [hdrop, htake, fraction.eq_def]
    split <;> simp

theorem number_digits {digits tail : List Char} (hd : ∀ c ∈ digits, c.isDigit)
    (ht : ∀ c ∈ tail.head?, isWord c = false) :
    number (digits ++ tail) = digits ++ fraction tail := by
  refine number_of_digits hd (fun c hc => ?_) fun _ c hc => ⟨?_, ?_⟩
  · exact Bool.eq_false_iff.mpr fun h => Bool.false_ne_true ((ht c hc).symm.trans (isWord_of_isDigit h))
  all_goals
    rintro rfl
    exact absurd (ht _ hc) (by decide)

theorem number_append {text rest : List Char}
    (hr : ∀ c ∈ rest.head?, isWord c = false ∧ c ≠ '.') :
    number (number text ++ rest) = number text := by
  have hstop {p : Char → Bool} (hp : ∀ c, p c → isWord c) : ∀ c ∈ rest.head?, p c = false :=
    fun c hc => Bool.eq_false_iff.mpr fun h =>
      Bool.false_ne_true ((hr c hc).1.symm.trans (hp c h))
  have hrest {p : Char → Bool} (hp : ∀ c, p c → isWord c) (text : List Char) :
      (text.takeWhile p ++ rest).takeWhile p = text.takeWhile p :=
    takeWhile_append (fun c hc => List.mem_takeWhile_imp hc) (hstop hp)
  have hdigits (text : List Char) : ∀ c ∈ text.takeWhile Char.isDigit, c.isDigit :=
    fun c hc => List.mem_takeWhile_imp hc
  fun_cases number text
  case case1 digits => simp [number, hrest fun _ => isWord_of_isHexDigit]
  case case2 digits => simp [number, hrest fun _ => isWord_of_isHexDigit]
  case case3 fraction _ _ h =>
    rw [List.append_assoc, number_digits (hdigits _) (by simp; decide)]
    simp [Lexeme.fraction, hrest fun _ => isWord_of_isDigit]
  case case4 =>
    rw [number_digits (hdigits _) fun c hc => (hr c hc).1, fraction.eq_def]
    split
    case h_1 => exact absurd rfl (hr '.' rfl).2
    case h_2 => simp

end Lexeme

namespace Scanner

-- Does the text of a template end with the mark that closes it? A mark inside of an embedded
-- expression does not close it.
def closesTemplate : (inside : Bool) → (behind : List Char) → List Char → Bool
  | _, _, [] => false
  | true, behind, c :: text => closesTemplate (c != '\x7d') (c :: behind) text
  | false, behind, c :: text =>
    if c == '\x60' && !Lexeme.isEscaped behind then text.isEmpty
    else
      closesTemplate (c == '$' && text.head? == some '\x7b' && !Lexeme.isEscaped behind) (c :: behind)
        text

theorem getLast?_of_closesTemplate {inside : Bool} {behind text : List Char}
    (h : closesTemplate inside behind text) : text.getLast? = some '\x60' := by
  induction text generalizing inside behind
  case nil => cases inside <;> cases h
  case cons c text ih =>
    cases inside
    case true =>
      rw [closesTemplate] at h
      rw [List.getLast?_cons, ih h, Option.getD_some]
    case false =>
      rw [closesTemplate] at h
      split at h
      case isTrue hclose =>
        have hc : c = '\x60' := by simp_all
        rw [List.isEmpty_iff.mp h, hc]
        rfl
      case isFalse => rw [List.getLast?_cons, ih h, Option.getD_some]

theorem template_append (nested : Scanner → List Token) {inside keepTrivia : Bool}
    {behind text : List Char} {offset : Nat} (h : closesTemplate inside behind text)
    (hb : ∃ c ∈ behind, c ≠ '\\') (more rest : List Char) :
    (template nested keepTrivia inside (behind ++ more) offset (text ++ rest)).1 = text := by
  induction text generalizing inside behind offset
  case nil => cases inside <;> cases h
  case cons c text ih =>
    have ⟨d, hd, hne⟩ := hb
    have ih {inside offset} (h : closesTemplate inside (c :: behind) text) :
        (template nested keepTrivia inside (c :: (behind ++ more)) offset (text ++ rest)).1 = text :=
      @ih inside (c :: behind) offset h ⟨d, .tail _ hd, hne⟩
    cases inside
    case true =>
      rw [closesTemplate] at h
      rw [List.cons_append, template]
      exact congrArg (c :: ·) (ih h)
    case false =>
      rw [closesTemplate] at h
      rw [List.cons_append, template, Lexeme.isEscaped_append hb]
      split at h
      case isTrue hclose => rw [if_pos hclose, List.isEmpty_iff.mp h]
      case isFalse hclose =>
        have hhead : (text ++ rest).head? = text.head? := by
          cases text
          case nil => simp [closesTemplate] at h
          case cons => rfl
        rw [if_neg hclose, hhead]
        split
        case isTrue hopen =>
          rw [hopen] at h
          exact congrArg (c :: ·) (ih h)
        case isFalse hopen =>
          rw [Bool.eq_false_iff.mpr hopen] at h
          exact congrArg (c :: ·) (ih h)

end Scanner

/-! ### Signs that are scanned again -/

-- The text that stands behind a token of this kind does not go on with it.
def TokenKind.Apart : TokenKind → List Char → Prop
  | .identifier, rest | .keyword _, rest | .special _, rest => ∀ c ∈ rest.head?, Character.isWord c = false
  | .number, rest => ∀ c ∈ rest.head?, Character.isWord c = false ∧ c ≠ '.'
  | .regex, rest => ∀ c ∈ rest.head?, c.isAlpha = false
  | .operator op, rest => ∀ c ∈ rest.head?, c ∉ op.continuations
  | _, _ => True

-- The piece is what the sign says.
structure Scanner.Piece.Has (p : Scanner.Piece) (t : Sign) : Prop where
  kind  : p.kind = t.kind
  text  : p.text = t.text.toList
  marks : p.marks = t.marks

-- Where the sign's text stands, it is cut off, if a regular expression may start there or may not.
structure Sign.IsCut (t : Sign) (allowed : Bool) : Prop where
  trivia : t.kind.isTrivia = false
  ending : t.kind ≠ .endOfInput
  text   : t.text.toList ≠ []
  cut    : ∀ ⦃nested : Scanner → List Token⦄ ⦃s : Scanner⦄ ⦃c text rest⦄, s.regexAllowed = allowed →
    t.text.toList = c :: text → t.kind.Apart rest →
    (Scanner.piece nested s c (text ++ rest)).Has t

namespace Scanner

variable {nested : Scanner → List Token} {s : Scanner} {c : Char} {text rest : List Char}

-- What starts a token that is neither trivia nor quoted, nor a regular expression.
theorem piece_eq_operatorOrWord (hslash : c = '/' → rest.head? ≠ some '/' ∧ rest.head? ≠ some '*')
    (hbreak : isLineBreak c = false) (hblank : isBlank c = false) (hquote : isQuote c = false)
    (hregex : c = '/' → s.regexAllowed = false) :
    piece nested s c rest = operatorOrWord c rest := by
  simp only [isQuote, Bool.or_eq_false_iff, beq_eq_false_iff_ne] at hquote
  by_cases hc : c = '/'
  case pos =>
    have ⟨h, h'⟩ := hslash hc
    simp [piece, hc, h, h', hregex hc, isLineBreak, isBlank]
  case neg => simp [piece, hc, hbreak, hblank, hquote]

theorem piece_of_isWord (hc : isWord c) : piece nested s c rest = operatorOrWord c rest := by
  have hclasses : ((isBlank c = false ∧ isLineBreak c = false) ∧ isOperator c = false) ∧
      isQuote c = false := by simpa [isWord] using hc
  have hslash : c ≠ '/' := fun h => absurd hclasses.1.2 (by rw [h]; decide)
  exact piece_eq_operatorOrWord (absurd · hslash) hclasses.1.1.2 hclasses.1.1.1 hclasses.2
    (absurd · hslash)

theorem operatorOrWord_eq_word (hc : isWordStart c) (ht : ∀ d ∈ text, isWord d)
    (hr : ∀ d ∈ rest.head?, isWord d = false) : operatorOrWord c (text ++ rest) = word (c :: text) := by
  simp only [isWordStart, isWord, Bool.and_eq_true, Bool.not_eq_true'] at hc
  simp [operatorOrWord, hc, Lexeme.takeWhile_append ht hr]

theorem piece_of_closesQuoted (nested : Scanner → List Token) (s : Scanner) {quote : Char}
    {text : List Char} (hq : quote = '"' ∨ quote = '\'') (ht : Lexeme.closesQuoted quote [quote] text)
    (rest : List Char) :
    piece nested s quote (text ++ rest) = { kind := .string, text := quote :: text } := by
  have hne : ∃ c ∈ [quote], c ≠ '\\' := ⟨quote, by simp, by rcases hq with rfl | rfl <;> decide⟩
  have hquoted := Lexeme.quoted_append ht hne s.behind rest
  rw [List.singleton_append] at hquoted
  rcases hq with rfl | rfl <;> simp [piece, isLineBreak, isBlank, hquoted]

end Scanner

open Scanner

theorem word_has (text : List Char) (b : Bool) :
    (word text).Has (.word (String.ofList text) b) :=
  ⟨by simp [Sign.word], by simp, by simp [Sign.word]⟩

theorem isWord_of_isWordStart {c : Char} (h : isWordStart c) : isWord c :=
  (Bool.and_eq_true_iff.mp h).1

theorem word_kind_isWord (text : List Char) : (word text).kind.isWord := by
  fun_cases word text <;> rfl

theorem TokenKind.apart_of_isWord {kind : TokenKind} {rest : List Char} (h : kind.isWord) :
    kind.Apart rest ↔ ∀ c ∈ rest.head?, Character.isWord c = false := by
  cases kind <;> first | rfl | cases h

namespace Sign

theorem word_isCut {name : String} {b allowed : Bool} {c : Char} {text : List Char}
    (hname : name.toList = c :: text) (hc : isWordStart c) (ht : ∀ d ∈ text, isWord d) :
    (Sign.word name b).IsCut allowed := by
  have hk : (Sign.word name b).kind.isWord := word_kind_isWord _
  refine ⟨?_, fun h => ?_, by simp [hname], fun nested s d text' rest _ htext hr => ?_⟩
  · revert hk
    cases (Sign.word name b).kind <;> simp [TokenKind.isWord, TokenKind.isTrivia]
  · simp [h, TokenKind.isWord] at hk
  · obtain ⟨rfl, rfl⟩ := List.cons.inj (hname.symm.trans htext)
    have hw := isWord_of_isWordStart hc
    rw [piece_of_isWord hw, operatorOrWord_eq_word hc ht ((TokenKind.apart_of_isWord hk).mp hr),
      ← hname]
    simpa using word_has name.toList b

theorem op_isCut {operator : Operator} {b allowed : Bool} (hw : operator.isWord = false)
    (ha : operator = .slash ∨ operator = .slashAssign → allowed = false) :
    (Sign.op operator b).IsCut allowed := by
  refine ⟨rfl, by simp, operator.spelling_ne_nil, fun nested s c text rest hs htext hr => ?_⟩
  have htext : operator.spelling.toList = c :: text := htext
  have hclasses : isLineBreak c = false ∧ isBlank c = false ∧ isQuote c = false ∧ isOperator c := by
    have hall : ∀ op : Operator, op.isWord = false → ∀ c ∈ op.spelling.toList.head?,
        isLineBreak c = false ∧ isBlank c = false ∧ isQuote c = false ∧ isOperator c := by
      intro op
      cases op <;> decide
    exact hall operator hw c (by rw [htext]; rfl)
  have hcut : operatorOrWord c (text ++ rest) =
      { kind := .operator operator, text := c :: text, marks := .ofOperator operator } := by
    have hlongest : Operator.longestAt? (operator.spelling.toList ++ rest) = some operator :=
      Operator.longestAt?_append hw hr
    rw [htext, List.cons_append] at hlongest
    simp [operatorOrWord, hclasses.2.2.2, hlongest, htext]
  -- Behind the slash comes neither a slash nor a star.
  have hslash : c = '/' → (operator = .slash ∧ text = [] ∨ operator = .slashAssign ∧ text = ['=']) := by
    rintro rfl
    revert htext
    cases operator <;> simp [Operator.spelling, eq_comm]
  rw [piece_eq_operatorOrWord (fun h => ?_) hclasses.1 hclasses.2.1 hclasses.2.2.1 fun h => ?_, hcut]
  · exact ⟨rfl, htext.symm, rfl⟩
  · rcases hslash h with ⟨rfl, rfl⟩ | ⟨rfl, rfl⟩
    · exact ⟨fun hc => hr '/' hc (by decide), fun hc => hr '*' hc (by decide)⟩
    · simp
  · exact hs.trans (ha ((hslash h).imp And.left And.left))


theorem number_isCut {text : List Char} {c : Char} {b allowed : Bool} {rest : List Char}
    (hc : c.isDigit) (ht : text = Lexeme.number (c :: rest)) :
    (⟨.number, String.ofList text, {}, b⟩ : Sign).IsCut allowed := by
  subst ht
  refine ⟨rfl, by simp, by simpa using Lexeme.number_ne_nil hc, ?_⟩
  intro nested s d text rest' _ htext hr
  rw [String.toList_ofList] at htext
  obtain rfl : d = c := by
    have hprefix := Lexeme.number_isPrefix (c :: rest)
    rw [htext] at hprefix
    exact (List.cons_prefix_cons.mp hprefix).1
  have hnumber : Lexeme.number (Lexeme.number (d :: rest) ++ rest') = Lexeme.number (d :: rest) :=
    Lexeme.number_append hr
  rw [htext, List.cons_append] at hnumber
  have hoperator : isOperator d = false := by
    have hw := isWord_of_isDigit hc
    simp_all [Character.isWord]
  rw [piece_of_isWord (isWord_of_isDigit hc)]
  simp only [operatorOrWord, hoperator, hc, hnumber]
  exact ⟨rfl, by simp [htext], rfl⟩

theorem quoted_isCut {quote : Char} {text : List Char} {b allowed : Bool}
    (hq : quote = '"' ∨ quote = '\'') (ht : Lexeme.closesQuoted quote [quote] text) :
    (⟨.string, String.ofList (quote :: text), {}, b⟩ : Sign).IsCut allowed := by
  refine ⟨rfl, by simp, by simp, fun nested s c text' rest _ htext hr => ?_⟩
  obtain ⟨rfl, rfl⟩ := List.cons.inj (htext.symm.trans (String.toList_ofList))
  rw [piece_of_closesQuoted nested s hq ht]
  exact ⟨rfl, by simp, rfl⟩

theorem template_isCut {text : List Char} {b allowed : Bool}
    (ht : closesTemplate false ['\x60'] text) :
    (⟨.string, String.ofList ('\x60' :: text), { template := true }, b⟩ : Sign).IsCut allowed := by
  refine ⟨rfl, by simp, by simp, fun nested s c text' rest _ htext hr => ?_⟩
  obtain ⟨rfl, rfl⟩ := List.cons.inj (htext.symm.trans (String.toList_ofList))
  have htemplate : (template nested s.keepTrivia false ('\x60' :: s.behind) (s.offset + 1)
      (text' ++ rest)).1 = text' :=
    template_append nested ht ⟨'\x60', by simp, by decide⟩ s.behind rest
  have hpiece : (piece nested s '\x60' (text' ++ rest)).Has
      ⟨.string, String.ofList ('\x60' :: (template nested s.keepTrivia false ('\x60' :: s.behind)
        (s.offset + 1) (text' ++ rest)).1), { template := true }, b⟩ :=
    ⟨by simp [piece, isLineBreak, isBlank], by simp [piece, isLineBreak, isBlank],
      by simp [piece, isLineBreak, isBlank]⟩
  rwa [htemplate] at hpiece

theorem regex_isCut {behind text found : List Char} {b : Bool}
    (hslash : text.head? ≠ some '/' ∧ text.head? ≠ some '*')
    (h : Lexeme.regex? ('/' :: behind) text = some found) :
    (⟨.regex, String.ofList ('/' :: found), { regex := true }, b⟩ : Sign).IsCut true := by
  refine ⟨rfl, by simp, by simp, fun nested s c text' rest hs htext hr => ?_⟩
  obtain ⟨rfl, rfl⟩ := List.cons.inj (htext.symm.trans (String.toList_ofList))
  have h : Lexeme.regex? (['/'] ++ behind) text = some text' := h
  have hregex : Lexeme.regex? ('/' :: s.behind) (text' ++ rest) = some text' :=
    Lexeme.regex?_append h ⟨'/', by simp, by decide⟩ hr s.behind
  -- The regular expression starts as the text does that it was taken from.
  have hhead : (text' ++ rest).head? = text.head? := by
    obtain ⟨after, rfl⟩ := Lexeme.regex?_isPrefix h
    obtain ⟨d, text', rfl⟩ := List.exists_cons_of_ne_nil (Lexeme.regex?_ne_nil h)
    rfl
  have hpiece : piece nested s '/' (text' ++ rest) =
      { kind := .regex, text := '/' :: text', marks := { regex := true } } := by
    simp [piece, hhead, hslash, isLineBreak, isBlank, hs, hregex]
  rw [hpiece]
  exact ⟨rfl, by simp, rfl⟩

end Sign

/-! ### What the tokens of a source are -/

-- What the scanner cuts off: the kind, the text and the marks.
inductive Lexes : TokenKind → List Char → Marks → Prop
  | trivia {kind text marks} : kind.isTrivia → Lexes kind text marks
  | quoted {quote text} : quote = '"' ∨ quote = '\'' → Lexes .string (quote :: text) {}
  | template {text} : Lexes .string ('\x60' :: text) { template := true }
  | regex {behind text found} : text.head? ≠ some '/' ∧ text.head? ≠ some '*' →
    Lexeme.regex? ('/' :: behind) text = some found → Lexes .regex ('/' :: found) { regex := true }
  | operator (op) : Lexes (.operator op) op.spelling.toList (.ofOperator op)
  | number {c text} : c.isDigit → Lexes .number (Lexeme.number (c :: text)) {}
  | word {c text} : isWordStart c → (∀ d ∈ text, isWord d) →
    Lexes (word (c :: text)).kind (c :: text) (word (c :: text)).marks

theorem Operator.longestAt?_isSome {c : Char} (hc : isOperator c) (rest : List Char) :
    longestAt? (c :: rest) ≠ none := by
  intro h
  have h := List.findSome?_eq_none_iff.mp h 1 (by simp)
  have hall : ∀ c ∈ operatorCharacters, ofSpelling? (String.ofList [c]) ≠ none := by decide +kernel
  exact hall c (List.contains_iff_mem.mp hc) (by simpa using h)

theorem operatorOrWord_lexes {c : Char} (hc : isBlank c = false ∧ isLineBreak c = false ∧ isQuote c = false)
    (rest : List Char) :
    Lexes (operatorOrWord c rest).kind (operatorOrWord c rest).text (operatorOrWord c rest).marks := by
  fun_cases operatorOrWord c rest
  case case1 op h => exact .operator op
  case case2 h => exact .number h
  case case3 hnone hdigit =>
    have hoperator : isOperator c = false := Bool.eq_false_iff.mpr fun h => by
      rw [if_pos h] at hnone
      exact Operator.longestAt?_isSome h rest hnone
    have hw : isWordStart c := by simp [isWordStart, isWord, hc, hoperator, hdigit]
    simpa using Lexes.word hw fun d hd => List.mem_takeWhile_imp hd

theorem piece_lexes (nested : Scanner → List Token) (s : Scanner) (c : Char) (rest : List Char) :
    Lexes (piece nested s c rest).kind (piece nested s c rest).text (piece nested s c rest).marks := by
  fun_cases piece nested s c rest
  case case1 | case2 | case3 | case4 => exact .trivia rfl
  case case5 hc _ _ _ =>
    obtain rfl := beq_iff_eq.mp hc
    exact .template
  case case6 hc => exact .quoted (by simpa using hc)
  case case7 hslash hstar _ _ _ _ text h =>
    split at h
    case isFalse => cases h
    case isTrue hc =>
      obtain rfl := beq_iff_eq.mp (Bool.and_eq_true_iff.mp hc).1
      exact .regex ⟨by simpa using hslash, by simpa using hstar⟩ h
  case case8 hbreak hblank hmark hquote _ =>
    have hquote : isQuote c = false := by
      rw [isQuote, Bool.eq_false_iff.mpr hquote, Bool.eq_false_iff.mpr hmark]
      rfl
    exact operatorOrWord_lexes
      ⟨Bool.eq_false_iff.mpr hblank, Bool.eq_false_iff.mpr hbreak, hquote⟩ rest

theorem not_isWord_of_piece {nested : Scanner → List Token} {s : Scanner} {c : Char} {rest : List Char}
    {op : Operator} (h : (piece nested s c rest).kind = .operator op) : op.isWord = false := by
  have hall : ∀ op ∈ Operator.all, (∀ c ∈ op.spelling.toList.head?, isOperator c) → op.isWord = false := by
    decide +kernel
  refine hall op op.mem_all fun d hd => ?_
  revert h
  fun_cases piece nested s c rest
  case case8 =>
    fun_cases operatorOrWord c rest
    case case1 op' h =>
      intro heq
      cases heq
      split at h
      case isFalse => cases h
      case isTrue hc =>
        obtain ⟨more, hmore⟩ := Operator.longestAt?_isPrefix h
        have hhead : (op.spelling.toList ++ more).head? = some d := by
          rw [List.head?_append, Option.mem_def.mp hd]
          rfl
        rw [hmore] at hhead
        exact Option.some.inj hhead ▸ hc
    case case2 =>
      intro heq
      cases heq
    case case3 =>
      intro heq
      have hword := heq ▸ word_kind_isWord (c :: rest.takeWhile isWord)
      cases hword
  all_goals
    intro heq
    cases heq

theorem TokenKind.eq_of_operator? {kind : TokenKind} {op : Operator} (h : kind.operator? = some op) :
    kind = .operator op := by
  cases kind <;> cases h
  rfl

theorem Lexes.of_operator {op : Operator} {text : List Char} {marks : Marks}
    (h : Lexes (.operator op) text marks) : text = op.spelling.toList ∧ marks = .ofOperator op := by
  generalize hkind : TokenKind.operator op = kind at h
  cases h
  case operator =>
    cases hkind
    exact ⟨rfl, rfl⟩
  case trivia ht =>
    subst hkind
    cases ht
  case word =>
    have hword := hkind ▸ word_kind_isWord (_ :: _)
    cases hword
  all_goals cases hkind

theorem Keyword.ofSpelling?_spelling {s : String} {k : Keyword} (h : ofSpelling? s = some k) :
    k.spelling = s := by
  simpa using List.find?_some h

theorem Special.ofSpelling?_spelling {s : String} {k : Special} (h : ofSpelling? s = some k) :
    k.spelling = s := by
  simpa using List.find?_some h

theorem word_eq_of_keyword {text : List Char} {k : Keyword} (h : (word text).kind = .keyword k) :
    String.ofList text = k.spelling := by
  revert h
  fun_cases word text
  case case1 hk | case2 hk | case3 hk =>
    intro h
    cases h
    exact (Keyword.ofSpelling?_spelling hk).symm
  all_goals
    intro h
    cases h

theorem word_eq_of_special {text : List Char} {k : Special} (h : (word text).kind = .special k) :
    String.ofList text = k.spelling := by
  revert h
  fun_cases word text
  case case4 k' hk _ =>
    intro h
    cases h
    exact (Special.ofSpelling?_spelling hk).symm
  all_goals
    intro h
    cases h

namespace Token

-- The token is one that the scanner has cut off somewhere.
def IsScanned (t : Token) : Prop :=
  Lexes t.kind t.value.toList t.marks

-- What holds of every piece holds of every token of a range.
theorem of_mem_tokensWithin {holds : TokenKind → List Char → Marks → Prop}
    (hpiece : ∀ nested s c rest, holds (piece nested s c rest).kind (piece nested s c rest).text
      (piece nested s c rest).marks) {limit : Nat} {s : Scanner} {t : Token} (hk : s.keepTrivia)
    (h : t ∈ s.tokensWithin limit) : holds t.kind t.value.toList t.marks := by
  induction limit generalizing s
  case zero => cases h
  case succ limit ih =>
    rw [tokensWithin, nextWithin_of_keepTrivia hk] at h
    rcases ha : s.ahead with _ | ⟨c, rest⟩
    case nil => simp [Scanner.scan, ha, endOfInput] at h
    case cons =>
      simp only [Scanner.scan, ha] at h
      split at h
      case isTrue => cases h
      case isFalse =>
        rcases List.mem_cons.mp h with rfl | h
        · simpa using hpiece _ s c rest
        · exact ih (by simpa [Scanner.advance] using hk) h

theorem mem_placeTokens {table : LineTable} {t : Token} {tokens : List Token}
    (h : t ∈ placeTokens table tokens) : ∃ t' ∈ tokens, t = t'.place table := by
  induction tokens
  case nil => cases h
  case cons t' tokens ih =>
    rw [placeTokens] at h
    rcases List.mem_cons.mp h with rfl | h
    · exact ⟨t', .head _, rfl⟩
    · obtain ⟨t'', ht, h⟩ := ih h
      exact ⟨t'', .tail _ ht, h⟩

-- Placing a token changes nothing but positions.
@[simp]
theorem place_kind (t : Token) (table : LineTable) : (t.place table).kind = t.kind := by
  cases t; rfl

@[simp]
theorem place_span (t : Token) (table : LineTable) : (t.place table).span = t.span := by
  cases t; rfl

@[simp]
theorem place_value (t : Token) (table : LineTable) : (t.place table).value = t.value := by
  cases t; rfl

@[simp]
theorem place_marks (t : Token) (table : LineTable) : (t.place table).marks = t.marks := by
  cases t; rfl

theorem of_mem_ofSource {holds : TokenKind → List Char → Marks → Prop}
    (hpiece : ∀ nested s c rest, holds (piece nested s c rest).kind (piece nested s c rest).text
      (piece nested s c rest).marks) {source : String} {t : Token} (h : t ∈ ofSource source true)
    (hk : t.kind ≠ .endOfInput) : holds t.kind t.value.toList t.marks := by
  obtain ⟨t', ht, rfl⟩ := mem_placeTokens h
  rw [place_kind] at hk
  rw [place_kind, place_value, place_marks]
  rcases List.mem_append.mp ht with ht | ht
  · exact of_mem_tokensWithin hpiece (s := .ofSource source true) rfl ht
  · rw [List.mem_singleton.mp ht] at hk
    exact absurd rfl hk

theorem isScanned_of_mem {source : String} {t : Token} (h : t ∈ ofSource source true)
    (hk : t.kind ≠ .endOfInput) : t.IsScanned :=
  of_mem_ofSource piece_lexes h hk

-- The operators that are words are scanned as keywords.
theorem not_isWord_of_mem {source : String} {t : Token} {operator : Operator} (h : t ∈ ofSource source true)
    (hk : t.kind = .operator operator) : operator.isWord = false :=
  @of_mem_ofSource (fun kind _ _ => ∀ op, kind = .operator op → op.isWord = false)
    (fun _ _ _ _ _ hkind => not_isWord_of_piece hkind) _ _ h (by simp [hk]) operator hk

def sign (t : Token) (startsLine : Bool) : Sign :=
  ⟨t.kind, t.value, t.marks, startsLine⟩

theorem IsScanned.word {t : Token} (h : t.IsScanned) (hk : t.isWord) :
    (∃ c text, t.value.toList = c :: text ∧ isWordStart c ∧ ∀ d ∈ text, Character.isWord d) ∧
      ∀ b, t.sign b = .word t.value b := by
  obtain ⟨kind, span, value, marks, position, embeddings⟩ := t
  simp only [IsScanned] at h
  generalize htext : value.toList = text at h
  cases h with
  | word hc ht => exact ⟨⟨_, _, rfl, hc, ht⟩, fun b => by simp [sign, Sign.word, htext]⟩
  | trivia ht =>
    revert hk ht
    cases kind <;> simp [Token.isWord, TokenKind.isWord, TokenKind.isTrivia]
  | _ => cases hk

theorem IsScanned.of_operator {t : Token} {operator : Operator} (h : t.IsScanned)
    (hk : t.kind = .operator operator) :
    t.value = operator.spelling ∧ t.marks = .ofOperator operator := by
  rw [IsScanned, hk] at h
  exact ⟨String.toList_injective h.of_operator.1, h.of_operator.2⟩

end Token

-- Does the text of a literal end with the delimiter that closes it? Only strings and templates have one.
def LiteralKind.closes (kind : LiteralKind) (raw : String) : Bool :=
  match kind, raw.toList with
  | string, quote :: text => Lexeme.closesQuoted quote [quote] text
  | template, mark :: text => closesTemplate false [mark] text
  | string, [] | template, [] => false
  | _, _ => true

theorem Token.IsScanned.literal {t : Token} {kind : LiteralKind} {b allowed : Bool} (h : t.IsScanned)
    (hk : Grammar.literalKind? t = some kind) (hc : kind.closes t.value)
    (ha : kind = .regex → allowed = true) : (t.sign b).IsCut allowed := by
  obtain ⟨k, span, value, marks, position, embeddings⟩ := t
  simp only [IsScanned] at h
  generalize htext : value.toList = text at h
  have hvalue : value = String.ofList text := by rw [← htext, String.ofList_toList]
  cases h with
  | trivia ht =>
    revert hk ht
    cases k <;> simp [Grammar.literalKind?, TokenKind.isTrivia]
  | quoted hq =>
    cases hk
    have hc : LiteralKind.string.closes value := hc
    simp only [LiteralKind.closes, htext] at hc
    exact hvalue ▸ Sign.quoted_isCut hq hc
  | template =>
    cases hk
    have hc : LiteralKind.template.closes value := hc
    simp only [LiteralKind.closes, htext] at hc
    exact hvalue ▸ Sign.template_isCut hc
  | regex hslash h =>
    cases hk
    obtain rfl := ha rfl
    exact hvalue ▸ Sign.regex_isCut hslash h
  | operator => cases hk
  | number hd => exact hvalue ▸ Sign.number_isCut hd rfl
  | word hd ht =>
    have hsign : (Sign.word value b).IsCut allowed := Sign.word_isCut htext hd ht
    simpa [Token.sign, Sign.word, htext] using hsign

end ScriptTree
