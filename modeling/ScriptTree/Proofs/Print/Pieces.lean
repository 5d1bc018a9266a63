import ScriptTree.Print
import ScriptTree.Proofs.Print.Spells

/-!
The pieces that a writer is given: punctuation, operators, words and literals.

There are two places between pieces that matter: one where an operand may stand, and one behind an
operand. In each, some pieces may be written without asking how the text so far ends.
-/

namespace ScriptTree

open Character Writer Scanner

-- The word `in` goes on as `instanceof`; else it is these that make something longer of an operator.
theorem Operator.mem_of_mem_continuations {op : Operator} {c : Char} (h : c ∈ op.continuations) :
    c ∈ ['=', '+', '-', '*', '/', '&', '|', '<', '>'] ∨ op.isWord ∧ c = 's' := by
  have hall : ∀ op ∈ all, ∀ c ∈ op.continuations,
      c ∈ ['=', '+', '-', '*', '/', '&', '|', '<', '>'] ∨ op.isWord ∧ c = 's' := by decide +kernel
  exact hall op (mem_all op) c h

-- The characters that start an operand, other than those of words and those that nothing goes on with.
def Character.openers : List Char :=
  ['+', '-', '/', '"', '\'', '\x60']

-- What would go on with an operator behind its last character is kept apart from it.
theorem Operator.merges_of_mem_continuations {op : Operator} {c d : Char} (hc : c ∈ openers)
    (h : c ∈ op.continuations) (hd : op.spelling.toList.getLast? = some d) : merges d c := by
  have hall : ∀ op ∈ all, ∀ c ∈ openers, c ∈ op.continuations →
      ∀ d ∈ op.spelling.toList.getLast?, merges d c := by decide +kernel
  exact hall op (mem_all op) c hc h d hd

namespace TokenKind

-- Can an operand stand behind a token of this kind?
def awaits : TokenKind → Bool
  | .identifier | .keyword _ | .special _ | .lineBreak => true
  | .operator op => !op.isWord
  | _ => false

-- Can an operand end with a token of this kind?
def endsOperand : TokenKind → Bool
  | .identifier | .keyword _ | .special _ | .number | .string | .regex => true
  | .operator op => [.rightParen, .rightBracket, .rightBrace, .increment, .decrement].contains op
  | _ => false

variable {kind : TokenKind} {c : Char}

theorem admits_of_awaits (h : kind.awaits) (hc : isPrintedWord c ∨ c ∈ openers) :
    kind.Admits c := by
  intro d hd
  have hmark : c ∈ openers → Character.isWord c = false := by
    have hall : ∀ c ∈ openers, Character.isWord c = false := by decide
    exact hall c
  cases kind
  case identifier | keyword | special =>
    rcases hc with hc | hc
    · exact .inl (by simp [merges, show isPrintedWord d from hd, hc])
    · refine .inr ?_
      simpa [Apart] using hmark hc
  case lineBreak => exact .inr trivial
  case operator operator =>
    have hop : operator.isWord = false := by simpa [awaits] using h
    by_cases hcont : c ∈ operator.continuations
    case neg => exact .inr (by simpa [Apart] using hcont)
    case pos =>
      rcases hc with hc | hc
      · have hcont := (Operator.mem_of_mem_continuations hcont).resolve_right (by simp [hop])
        have hall : ∀ c ∈ ['=', '+', '-', '*', '/', '&', '|', '<', '>'], ¬Character.isWord c := by decide
        exact absurd (isWord_of_isPrintedWord hc) (hall c hcont)
      · exact .inl (Operator.merges_of_mem_continuations hc hcont hd)
  all_goals cases h

theorem admits_of_endsOperand (h : kind.endsOperand) (hc : isOperator c)
    (hdot : c = '.' → kind ≠ .number) : kind.Admits c := by
  refine fun _ _ => .inr ?_
  have hword : Character.isWord c = false := by simp [Character.isWord, hc]
  cases kind
  case identifier | keyword | special => simpa [Apart] using hword
  case number =>
    have hdot : c ≠ '.' := fun hc => hdot hc rfl
    simpa [Apart] using ⟨hword, hdot⟩
  case regex =>
    have hall : ∀ c ∈ operatorCharacters, c.isAlpha = false := by decide
    simpa [Apart] using hall c (List.contains_iff_mem.mp hc)
  case string => trivial
  case operator operator _ =>
    have hnone : operator.continuations = [] := by
      revert h
      cases operator <;> decide
    simp [Apart, hnone]
  all_goals cases h

end TokenKind

namespace Operator

-- The operators that go on with nothing that stands before them.
def isSolitary (op : Operator) : Bool :=
  [.leftParen, .rightParen, .leftBracket, .rightBracket, .leftBrace, .rightBrace, .semicolon, .comma,
    .colon, .question, .tilde, .bang].contains op

theorem admits_of_isSolitary {op : Operator} (h : op.isSolitary) (kind : TokenKind) :
    ∀ c ∈ op.spelling.toList.head?, kind.Admits c := by
  intro c hc _ _
  refine .inr ?_
  have hc : c ∈ ['(', ')', '[', ']', '\x7b', '\x7d', ';', ',', ':', '?', '~', '!'] := by
    revert h c
    cases op <;> decide
  have hclasses : Character.isWord c = false ∧ c ≠ '.' ∧ c.isAlpha = false := by
    have hall : ∀ c ∈ ['(', ')', '[', ']', '\x7b', '\x7d', ';', ',', ':', '?', '~', '!'],
        Character.isWord c = false ∧ c ≠ '.' ∧ c.isAlpha = false := by decide
    exact hall c hc
  cases kind <;> simp [TokenKind.Apart, hclasses]
  case operator operator _ =>
    intro hcont
    have hall : ∀ c ∈ ['(', ')', '[', ']', '\x7b', '\x7d', ';', ',', ':', '?', '~', '!'],
        c ∉ ['=', '+', '-', '*', '/', '&', '|', '<', '>'] ∧ c ≠ 's' := by decide
    exact (Operator.mem_of_mem_continuations hcont).elim (hall c hc).1 fun h => (hall c hc).2 h.2

end Operator

namespace Pen

variable {q : Pen} {heads : List Bool} {isOpen : Bool} {c : Char} {operator : Operator}

-- An operand may stand here.
structure Waits (heads : List Bool) (q : Pen) : Prop where
  heads : q.heads = heads
  last  : ∀ kind ∈ q.last, kind.awaits
  head  : opensHead q.last = false
  regex : q.allowed = false → ∃ kind ∈ q.last, kind.isWord

-- An operand has ended here. `isOpen` says whether a slash may be taken for a regular expression.
structure Rests (heads : List Bool) (isOpen : Bool) (q : Pen) : Prop where
  heads : q.heads = heads
  last  : ∃ kind ∈ q.last, kind.endsOperand
  head  : opensHead q.last = false
  slash : q.allowed → isOpen
  line  : q.startsLine = false

theorem Waits.admits (h : q.Waits heads) (hc : isPrintedWord c ∨ c ∈ openers) : q.Admits c :=
  fun kind hk => TokenKind.admits_of_awaits (h.last kind hk) hc

theorem Waits.turned (h : q.Waits heads) : q.turned.Waits heads :=
  ⟨h.heads, by simp [Pen.turned, TokenKind.awaits], rfl, by simp [Pen.turned]⟩

theorem Rests.admits (h : q.Rests heads isOpen) (hw : operator.isWord = false)
    (hdot : operator = .dot → q.last ≠ some .number) :
    ∀ c ∈ operator.spelling.toList.head?, q.Admits c := by
  intro c hc kind hk
  obtain ⟨kind', hk', hends⟩ := h.last
  obtain rfl := Option.some.inj (hk.symm.trans hk')
  have hclasses : isOperator c ∧ (c = '.' → operator = .dot) := by
    revert hw c
    cases operator <;> decide
  refine TokenKind.admits_of_endsOperand hends hclasses.1 fun hc hn => ?_
  exact hdot (hclasses.2 hc) (hn ▸ hk)

theorem Rests.mono {isOpen' : Bool} (h : q.Rests heads isOpen) (ho : isOpen → isOpen') :
    q.Rests heads isOpen' :=
  { h with slash := fun hs => ho (h.slash hs) }

-- Behind an operator.
def behind (operator : Operator) (heads : List Bool) : Pen where
  last := some (.operator operator)
  heads

@[simp]
theorem behind_heads : (behind operator heads).heads = heads :=
  rfl

@[simp]
theorem behind_startsLine : (behind operator heads).startsLine = false :=
  rfl

theorem behind_waits (h : operator.isWord = false) : (behind operator heads).Waits heads :=
  ⟨rfl, by simp [behind, TokenKind.awaits, h], rfl, by simp [behind]⟩

theorem behind_rests (h : (TokenKind.operator operator).endsOperand) :
    (behind operator heads).Rests heads true :=
  ⟨rfl, ⟨_, rfl, h⟩, rfl, fun _ => rfl, rfl⟩

-- The operators that leave the parentheses around them as they are, and let a regular expression follow.
def isPlain (op : Operator) : Bool :=
  !([.leftParen, .rightParen, .rightBracket].contains op)

theorem note_operator (h : isPlain operator) (marks : Marks) :
    q.note (.operator operator) marks = behind operator q.heads := by
  cases operator <;> first | rfl | cases h

theorem note_word {kind : TokenKind} (h : kind.isWord) (marks : Marks) :
    q.note kind marks = { last := some kind, heads := q.heads, allowed := marks.isOperator } := by
  cases kind <;> first | rfl | cases h

theorem behind_paren {allowed : Bool} (h : allowed = false) :
    ({ last := some (.operator .rightParen), heads, allowed } : Pen).Rests heads isOpen :=
  ⟨rfl, ⟨_, rfl, rfl⟩, rfl, by simp [h], rfl⟩

end Pen

/-! ### Words -/

-- A word that the writer keeps apart from others.
structure IsPrintable (name : String) : Prop where
  nonempty : name.toList ≠ []
  chars    : ∀ c ∈ name.toList, isPrintedWord c
  head     : ∀ c ∈ name.toList.head?, c.isDigit = false

theorem isPrintable_async : IsPrintable "async" :=
  ⟨by decide, by decide +kernel, by decide⟩

theorem Keyword.isPrintable (k : Keyword) : IsPrintable k.spelling := by
  have hall : ∀ k ∈ all, k.spelling.toList ≠ [] ∧ (∀ c ∈ k.spelling.toList, isPrintedWord c) ∧
      ∀ c ∈ k.spelling.toList.head?, c.isDigit = false := by decide +kernel
  obtain ⟨hn, hc, hh⟩ := hall k (by cases k <;> decide)
  exact ⟨hn, hc, hh⟩

theorem Special.isPrintable (k : Special) : IsPrintable k.spelling := by
  have hall : ∀ k ∈ all, k.spelling.toList ≠ [] ∧ (∀ c ∈ k.spelling.toList, isPrintedWord c) ∧
      ∀ c ∈ k.spelling.toList.head?, c.isDigit = false := by decide +kernel
  obtain ⟨hn, hc, hh⟩ := hall k (by cases k <;> decide)
  exact ⟨hn, hc, hh⟩

namespace IsPrintable

variable {name : String} {b allowed : Bool}

theorem spelled (h : IsPrintable name) : ∃ c text, name.toList = c :: text ∧ isWordStart c ∧
    ∀ d ∈ text, isWord d := by
  obtain ⟨c, text, htext⟩ := List.exists_cons_of_ne_nil h.nonempty
  have hchars : ∀ d ∈ c :: text, isWord d := fun d hd => isWord_of_isPrintedWord (h.chars d (htext ▸ hd))
  refine ⟨c, text, htext, ?_, fun d hd => hchars d (.tail _ hd)⟩
  simp [isWordStart, hchars c (.head _), h.head c (by rw [htext]; rfl)]

theorem isCut (h : IsPrintable name) : (Sign.word name b).IsCut allowed :=
  have ⟨_, _, htext, hc, ht⟩ := h.spelled
  Sign.word_isCut htext hc ht

theorem endsWell (h : IsPrintable name) : (Sign.word name b).EndsWell := by
  intro c hc
  have hc : isPrintedWord c := h.chars c (List.mem_of_getLast? hc)
  have hk : (Sign.word name b).kind.isWord := word_kind_isWord _
  cases hkind : (Sign.word name b).kind <;> first | exact hc | (rw [hkind] at hk; cases hk)

end IsPrintable

theorem Sign.op_endsWell (operator : Operator) (b : Bool) : (Sign.op operator b).EndsWell :=
  fun _ hc => hc

-- Behind a word.
def Pen.behindWord (name : String) (heads : List Bool) : Pen where
  last := some (Scanner.word name.toList).kind
  heads
  allowed := (Scanner.word name.toList).marks.isOperator

@[simp]
theorem Pen.behindWord_heads {name : String} {heads : List Bool} :
    (Pen.behindWord name heads).heads = heads :=
  rfl

@[simp]
theorem Pen.behindWord_startsLine {name : String} {heads : List Bool} :
    (Pen.behindWord name heads).startsLine = false :=
  rfl

namespace Writer.Spells

variable {w : Writer} {q : Pen} {ss : List Sign} {operator : Operator} {heads : List Bool} {isOpen : Bool}

/-! ### Operators -/

theorem op (h : w.Spells ss q) (operator : Operator) (hw : operator.isWord = false)
    (ha : ∀ c ∈ operator.spelling.toList.head?, q.Admits c)
    (hslash : operator = .slash ∨ operator = .slashAssign → q.allowed = false) :
    (w.write operator.spelling).Spells (ss ++ [.op operator q.startsLine])
      (q.note (.operator operator) (.ofOperator operator)) :=
  h.write (t := .op operator q.startsLine) (Sign.op_isCut hw hslash) rfl (Sign.op_endsWell operator _)
    (.inr ha)

theorem solitary (h : w.Spells ss q) (operator : Operator) (hop : operator.isSolitary) :
    (w.write operator.spelling).Spells (ss ++ [.op operator q.startsLine])
      (q.note (.operator operator) (.ofOperator operator)) := by
  have hnot : operator.isWord = false ∧ operator ≠ .slash ∧ operator ≠ .slashAssign := by
    revert hop
    cases operator <;> decide
  exact h.op operator hnot.1 (fun c hc kind _ => Operator.admits_of_isSolitary hop kind c hc)
    fun hs => (hs.elim hnot.2.1 hnot.2.2).elim

-- Punctuation other than what closes something.
theorem mark (h : w.Spells ss q) (operator : Operator)
    (hop : operator.isSolitary ∧ Pen.isPlain operator) :
    (w.write operator.spelling).Spells (ss ++ [.op operator q.startsLine])
      (.behind operator q.heads) :=
  Pen.note_operator hop.2 _ ▸ h.solitary operator hop.1

theorem leftParen (h : w.Spells ss q) :
    (w.write "(").Spells (ss ++ [.op .leftParen q.startsLine])
      (.behind .leftParen (opensHead q.last :: q.heads)) :=
  h.solitary .leftParen rfl

theorem rightParen {isHead : Bool} (h : w.Spells ss q) (hq : q.heads = isHead :: heads) :
    (w.write ")").Spells (ss ++ [.op .rightParen q.startsLine])
      { last := some (.operator .rightParen), heads, allowed := isHead } := by
  have h : (w.write ")").Spells _ _ := h.solitary .rightParen rfl
  have hnote : q.note (.operator .rightParen) (.ofOperator .rightParen) =
      { last := some (.operator .rightParen), heads := q.heads.tail, allowed := q.heads.headD false } := rfl
  rwa [hnote, hq] at h

theorem rightBracket (h : w.Spells ss q) :
    (w.write "]").Spells (ss ++ [.op .rightBracket q.startsLine])
      { last := some (.operator .rightBracket), heads := q.heads, allowed := false } :=
  h.solitary .rightBracket rfl

-- An operator in front of its operand.
theorem prefixOperator (h : w.Spells ss q) (hq : q.Waits heads) (operator : Operator)
    (hop : operator ∈ [.plus, .minus, .tilde, .bang, .increment, .decrement]) :
    (w.write operator.spelling).Spells (ss ++ [.op operator q.startsLine])
      (.behind operator heads) := by
  have hnot : operator.isWord = false ∧ operator ≠ .slash ∧ operator ≠ .slashAssign ∧
      Pen.isPlain operator := by
    revert hop
    cases operator <;> decide
  have hhead : operator.isSolitary ∨ ∀ c ∈ operator.spelling.toList.head?, c ∈ openers := by
    revert hop
    cases operator <;> decide
  rw [← hq.heads, ← Pen.note_operator hnot.2.2.2 (.ofOperator operator)]
  refine h.op operator hnot.1 (fun c hc => ?_) fun hs => (hs.elim hnot.2.1 hnot.2.2.1).elim
  exact hhead.elim (fun hs kind _ => Operator.admits_of_isSolitary hs kind c hc) fun hs =>
    hq.admits (.inr (hs c hc))

-- An operator behind an operand.
theorem operatorBehind (h : w.Spells ss q) (hq : q.Rests heads isOpen) (operator : Operator)
    (hw : operator.isWord = false) (hplain : Pen.isPlain operator) (hdot : operator = .dot → q.last ≠ some .number)
    (hslash : operator = .slash ∨ operator = .slashAssign → isOpen = false) :
    (w.write operator.spelling).Spells (ss ++ [.op operator false]) (.behind operator heads) := by
  rw [← hq.heads, ← Pen.note_operator hplain (.ofOperator operator)]
  refine hq.line ▸ h.op operator hw (hq.admits hw hdot) fun hs => Bool.eq_false_iff.mpr fun ha => ?_
  simpa [hslash hs] using hq.slash ha

-- An operator between two operands that is no word.
theorem infixOperator (h : w.Spells ss q) (hq : q.Rests heads isOpen) (operator : Operator)
    (hw : operator.isWord = false) (hplain : Pen.isPlain operator) (hdot : operator ≠ .dot)
    (hslash : operator = .slash ∨ operator = .slashAssign → isOpen = false) :
    (w.infixOperator operator.spelling).Spells (ss ++ [.op operator false])
      (.behind operator heads) := by
  have hhead : operator.spelling.toList.head?.any isPrintedWord = false := by
    have hall : ∀ op ∈ Operator.all, op.isWord = false →
        op.spelling.toList.head?.any isPrintedWord = false := by decide +kernel
    exact hall operator (Operator.mem_all operator) hw
  rw [Writer.infixOperator, hhead]
  exact (h.optionalSpace.operatorBehind hq operator hw hplain (absurd · hdot) hslash).optionalSpace

/-! ### Words -/

theorem wordApart {name : String} (h : w.Spells ss q) (hn : IsPrintable name)
    (ha : w.IsApart ∨ q.Waits heads) :
    (w.write name).Spells (ss ++ [.word name q.startsLine]) (.behindWord name q.heads) := by
  have hnote : q.note (Sign.word name q.startsLine).kind (Sign.word name q.startsLine).marks =
      .behindWord name q.heads := Pen.note_word (word_kind_isWord name.toList) _
  refine hnote ▸ h.write (t := .word name q.startsLine) hn.isCut rfl hn.endsWell
    (ha.imp_right fun hq c hc => ?_)
  exact hq.admits (.inl (hn.chars c (List.mem_of_head? hc)))

theorem word {name : String} (h : w.Spells ss q) (hq : q.Waits heads) (hn : IsPrintable name) :
    (w.write name).Spells (ss ++ [.word name q.startsLine]) (.behindWord name heads) :=
  hq.heads ▸ h.wordApart hn (.inr hq)

theorem keyword (h : w.Spells ss q) (hq : q.Waits heads) (k : Keyword) :
    (w.write k.spelling).Spells (ss ++ [.keyword k q.startsLine]) (.behindWord k.spelling heads) :=
  h.word hq k.isPrintable

-- A word between two operands.
theorem infixWord (h : w.Spells ss q) (hq : q.Rests heads isOpen) (k : Keyword) :
    (w.infixOperator k.spelling).Spells (ss ++ [.keyword k false]) (.behindWord k.spelling heads) := by
  obtain ⟨c, text, htext⟩ := List.exists_cons_of_ne_nil k.isPrintable.nonempty
  have hhead : k.spelling.toList.head?.any isPrintedWord := by
    simp [htext, k.isPrintable.chars c (by simp [htext])]
  rw [Writer.infixOperator, if_pos hhead]
  have hapart : w.space.IsApart ∨ q.Waits heads := .inl (isApart_space w)
  exact hq.line ▸ hq.heads ▸ (h.space.wordApart k.isPrintable hapart).space

end Writer.Spells

/-! ### Literals -/

theorem Character.toNat_lt_of_isDigit {c : Char} (h : c.isDigit) : c.toNat < 0x80 := by
  simp only [Char.isDigit, Bool.and_eq_true, decide_eq_true_eq, UInt32.le_iff_toNat_le] at h
  exact Nat.lt_of_le_of_lt h.2 (by decide)

theorem Character.not_isLetter_of_isDigit {c : Char} (h : c.isDigit) :
    ¬(isLetter c || c == '_' || c == '$') := by
  have hall : ∀ n < 0x80, (Char.ofNat n).isDigit →
      ¬(isLetter (Char.ofNat n) || Char.ofNat n == '_' || Char.ofNat n == '$') := by
    decide +kernel
  have hchar := hall c.toNat (toNat_lt_of_isDigit h)
  rw [Char.ofNat_toNat] at hchar
  exact hchar h

theorem Character.isPrintedWord_of_isDigit {c : Char} (h : c.isDigit) : isPrintedWord c := by
  simp [isPrintedWord, isNumeral, toNat_lt_of_isDigit h, h]

theorem kind_of_literalKind? {t : Token} {kind : LiteralKind} (h : Grammar.literalKind? t = some kind) :
    t.kind = .string ∨ t.kind = .number ∨ t.kind = .regex ∨ ∃ k, t.kind = .special k := by
  unfold Grammar.literalKind? at h
  split at h <;> simp_all

-- A word that is a literal is a special one.
theorem special_of_literalKind? {t : Token} {kind : LiteralKind} (hw : t.kind.isWord)
    (hk : Grammar.literalKind? t = some kind) : ∃ k, t.kind = .special k := by
  rcases kind_of_literalKind? hk with h | h | h | h
  case inr.inr.inr => exact h
  all_goals
    rw [h] at hw
    cases hw

namespace Token.IsScanned

variable {t : Token} {kind : LiteralKind} {b : Bool}

theorem literal_endsWell (h : t.IsScanned) (hk : Grammar.literalKind? t = some kind)
    (hc : kind.closes t.value) : (t.sign b).EndsWell := by
  obtain ⟨k, span, value, marks, position, embeddings⟩ := t
  simp only [IsScanned] at h
  intro c hlast
  simp only [Token.sign] at hlast
  generalize htext : value.toList = text at h hlast
  cases h with
  | trivia ht =>
    revert hk ht
    cases k <;> simp [Grammar.literalKind?, TokenKind.isTrivia]
  | quoted hq =>
    cases hk
    have hc : LiteralKind.string.closes value := hc
    simp only [LiteralKind.closes, htext] at hc
    rw [List.getLast?_cons, Lexeme.getLast?_of_closesQuoted hc] at hlast
    cases hlast
    rcases hq with rfl | rfl <;> simp [Token.sign, TokenKind.EndsWith]
  | template =>
    cases hk
    have hc : LiteralKind.template.closes value := hc
    simp only [LiteralKind.closes, htext] at hc
    rw [List.getLast?_cons, getLast?_of_closesTemplate hc] at hlast
    cases hlast
    simp [Token.sign, TokenKind.EndsWith]
  | regex hslash h =>
    rw [List.getLast?_cons, List.getLast?_eq_some_getLast (Lexeme.regex?_ne_nil h)] at hlast
    exact Lexeme.ne_space_of_getLast?_regex? h c
      (by rw [List.getLast?_eq_some_getLast (Lexeme.regex?_ne_nil h)]; exact hlast)
  | operator => cases hk
  | number hd =>
    rintro rfl
    exact absurd (Lexeme.isWord_of_mem_number ' ' (List.mem_of_getLast? hlast)) (by decide)
  | @word d text hd ht =>
    obtain ⟨k, hspecial⟩ := special_of_literalKind? (word_kind_isWord _) hk
    have hspecial : (Scanner.word (d :: text)).kind = .special k := hspecial
    have hword := word_eq_of_special hspecial
    rw [← htext, String.ofList_toList] at hword
    rw [← htext] at hlast
    have hprinted : isPrintedWord c := by
      rw [hword] at hlast
      exact k.isPrintable.chars c (List.mem_of_getLast? hlast)
    simp only [Token.sign, hspecial]
    exact hprinted

theorem literal_head (h : t.IsScanned) (hk : Grammar.literalKind? t = some kind) :
    ∀ c ∈ t.value.toList.head?, isPrintedWord c ∨ c ∈ openers := by
  obtain ⟨k, span, value, marks, position, embeddings⟩ := t
  simp only [IsScanned] at h
  dsimp only
  generalize htext : value.toList = text at h
  intro c hc
  cases h with
  | trivia ht =>
    revert hk ht
    cases k <;> simp [Grammar.literalKind?, TokenKind.isTrivia]
  | quoted hq =>
    cases hc
    rcases hq with rfl | rfl <;> exact .inr (by decide)
  | template | regex =>
    cases hc
    exact .inr (by decide)
  | operator => cases hk
  | @number d text hd =>
    obtain ⟨rest, hnumber⟩ := Lexeme.number_isPrefix (d :: text)
    obtain ⟨text', htext'⟩ := List.head?_eq_some_iff.mp hc
    rw [htext', List.cons_append] at hnumber
    obtain rfl := (List.cons.inj hnumber).1
    exact .inl (isPrintedWord_of_isDigit hd)
  | @word d text hd ht =>
    obtain ⟨k, hspecial⟩ := special_of_literalKind? (word_kind_isWord _) hk
    have hword := word_eq_of_special hspecial
    rw [← htext, String.ofList_toList] at hword
    rw [← htext, hword] at hc
    exact .inl (k.isPrintable.chars c (List.mem_of_head? hc))

theorem literal_marks (h : t.IsScanned) (hk : Grammar.literalKind? t = some kind) :
    t.marks.isOperator = false := by
  obtain ⟨k, span, value, marks, position, embeddings⟩ := t
  simp only [IsScanned] at h
  generalize htext : value.toList = text at h
  cases h with
  | trivia ht =>
    revert hk ht
    cases k <;> simp [Grammar.literalKind?, TokenKind.isTrivia]
  | quoted | template | regex | number => rfl
  | operator => cases hk
  | @word d text hd ht =>
    obtain ⟨k, hspecial⟩ := special_of_literalKind? (word_kind_isWord _) hk
    have hspecial : (Scanner.word (d :: text)).kind = .special k := hspecial
    revert hspecial
    fun_cases Scanner.word (d :: text) <;> first | exact fun _ => rfl | exact fun h => by cases h

end Token.IsScanned

namespace Writer.Spells

variable {w : Writer} {q : Pen} {ss : List Sign} {heads : List Bool} {t : Token} {kind : LiteralKind}

theorem bareLiteral (h : w.Spells ss q) (hq : q.Waits heads) (ht : t.IsScanned)
    (hk : Grammar.literalKind? t = some kind) (hc : kind.closes t.value)
    (ha : kind = .regex → q.allowed = true) :
    (w.write t.value).Spells (ss ++ [t.sign q.startsLine])
      { last := some t.kind, heads, allowed := false } := by
  have hnote : q.note t.kind t.marks = { last := some t.kind, heads, allowed := false } := by
    rw [← hq.heads]
    have hmarks := ht.literal_marks hk
    have hother {kind} (hk : q.note kind t.marks =
        { last := some kind, heads := q.heads, allowed := t.marks.isOperator }) :
        q.note kind t.marks = { last := some kind, heads := q.heads, allowed := false } := by
      rw [hk, hmarks]
    rcases kind_of_literalKind? hk with h | h | h | ⟨k, h⟩ <;> rw [h] <;> exact hother rfl
  exact hnote ▸ h.write (t := t.sign q.startsLine) (ht.literal hk hc ha) rfl (ht.literal_endsWell hk hc)
    (.inr fun c hc => hq.admits (ht.literal_head hk c hc))

-- Between parentheses where it might be taken for something else.
theorem literal (h : w.Spells ss q) (hq : q.Waits heads) (ht : t.IsScanned)
    (hk : Grammar.literalKind? t = some kind) (hc : kind.closes t.value) :
    ∃ ts q', (w.literal kind t.value).Spells (ss ++ ts) q' ∧ q'.Rests heads false ∧
      (q'.last = some .number → kind = .number) ∧
      (ts = [t.sign q.startsLine] ∨
        ts = [.op .leftParen q.startsLine, t.sign false, .op .rightParen false]) := by
  have hends : t.kind.endsOperand ∧ opensHead (some t.kind) = false := by
    rcases kind_of_literalKind? hk with h | h | h | ⟨k, h⟩ <;> rw [h] <;> exact ⟨rfl, rfl⟩
  rw [Writer.literal]
  split
  case isTrue =>
    have hopen : (w.write "(").Spells (ss ++ [.op .leftParen q.startsLine])
        (.behind .leftParen (false :: heads)) := hq.heads ▸ hq.head ▸ h.leftParen
    have hinner := hopen.bareLiteral (Pen.behind_waits rfl) ht hk hc fun _ => rfl
    have hclose := hinner.rightParen rfl
    exact ⟨_, _, by simpa using hclose, Pen.behind_paren rfl, nofun, .inr rfl⟩
  case isFalse hguarded =>
    refine ⟨_, _, h.bareLiteral hq ht hk hc fun hregex => ?_,
      ⟨rfl, ⟨_, rfl, hends.1⟩, hends.2, nofun, rfl⟩, fun hlast => ?_, .inl rfl⟩
    · -- Only a word keeps a regular expression from standing here, and it is seen.
      refine by_contra fun ha => hguarded ?_
      obtain ⟨kind', hlast, hword⟩ := hq.regex (by simpa using ha)
      rcases h.lastMark kind' hlast with rfl | ⟨c, hmark, hends⟩
      · cases hword
      · have hc : isPrintedWord c := by cases kind' <;> first | exact hends | cases hword
        simp [hregex, hmark, hc]
    · have hnumber : t.kind = .number := Option.some.inj hlast
      simp only [Grammar.literalKind?, hnumber, Option.some.injEq] at hk
      exact hk.symm

end Writer.Spells

end ScriptTree
