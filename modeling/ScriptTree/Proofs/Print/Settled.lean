import ScriptTree.Proofs.Print.Kept
import ScriptTree.Proofs.Print.RoundTrip

/-!
Texts that an expression starts with, whatever is written behind them.

The first signs of a text depend on what stands behind them: a name may go on, or become a label, and a
slash may become a comment. So a text is settled when an expression starts with it whatever is written
next. Until then it is a single word, which the next operator settles.
-/

namespace ScriptTree

open Character Writer Scanner

/-! ### The first signs -/

-- The signs can only be those of an expression, if they are those of a statement.
def StartsExpression (ts : List Sign) : Prop :=
  ∃ s us, ts = s :: us ∧ s.kind ≠ .endOfInput ∧ s.kind.opensStatement = false ∧
    (s.kind = .identifier → LeaveName us)

theorem StartsExpression.startsPlainly {ts : List Sign} (h : StartsExpression ts) : StartsPlainly ts := by
  obtain ⟨s, us, rfl, -, hs, hname⟩ := h
  refine ⟨s, us, rfl, fun hk => ?_, fun hk => ?_, fun hk t ht => ?_⟩
  · simp [hk, TokenKind.opensStatement] at hs
  · simp [hk, TokenKind.opensStatement] at hs
  · obtain ⟨u, vs, rfl, hne⟩ := hname hk
    cases ht
    exact hne

-- A character that starts a token which is neither a word nor trivia.
def IsMark (c : Char) : Prop :=
  isWordStart c = false ∧ isBlank c = false ∧ isLineBreak c = false

-- No comment starts with the last slash of the text if it goes on with the other one.
def KeepsSlash (text more : List Char) : Prop :=
  text.getLast? = some '/' → ∀ c ∈ more.head?, c ≠ '/' ∧ c ≠ '*'

instance (c : Char) : Decidable (IsMark c) :=
  inferInstanceAs (Decidable (_ ∧ _))

instance (text more : List Char) : Decidable (KeepsSlash text more) :=
  inferInstanceAs (Decidable (_ → _))

theorem KeepsSlash.of_ne {c : Char} (h : c ≠ '/') (more : List Char) : KeepsSlash [c] more :=
  fun hslash => absurd (Option.some.inj hslash) h

theorem IsMark.of_isDigit {c : Char} (h : c.isDigit) : IsMark c := by
  have hw := isWord_of_isDigit h
  simp only [isWord, Bool.and_eq_true, Bool.not_eq_true'] at hw
  exact ⟨by simp [isWordStart, h], hw.1.1.1, hw.1.1.2⟩

-- What a token can be that starts with a mark.
def TokenKind.IsMarked (c : Char) : TokenKind → Prop
  | .string | .number | .regex => True
  | .operator op => op.spelling.toList.head? = some c
  | _ => False

section

variable {c d : Char} {text rest gap more : List Char} {kind : TokenKind}

theorem piece_isMarked (hc : IsMark c) (hslash : KeepsSlash [c] rest) (nested : Scanner → List Token)
    (s : Scanner) : (piece nested s c rest).kind.IsMarked c := by
  obtain ⟨hword, hblank, hbreak⟩ := hc
  have hnext (h : c = '/') (d : Char) (hd : rest.head? = some d) : d ≠ '/' ∧ d ≠ '*' :=
    hslash (by simp [h]) d hd
  fun_cases piece nested s c rest
  case case1 h =>
    obtain ⟨hc, hd⟩ : c = '/' ∧ rest.head? = some '/' := by simpa using h
    exact absurd rfl (hnext hc _ hd).1
  case case2 h =>
    obtain ⟨hc, hd⟩ : c = '/' ∧ rest.head? = some '*' := by simpa using h
    exact absurd rfl (hnext hc _ hd).2
  case case3 h => exact absurd h (by simp [hbreak])
  case case4 h => exact absurd h (by simp [hblank])
  case case5 | case6 | case7 => trivial
  case case8 hmark hquote _ =>
    fun_cases operatorOrWord c rest
    case case1 op h =>
      split at h
      case isTrue =>
        obtain ⟨after, hafter⟩ := Operator.longestAt?_isPrefix h
        obtain ⟨d, text, htext⟩ := List.exists_cons_of_ne_nil op.spelling_ne_nil
        rw [htext] at hafter
        obtain ⟨rfl, -⟩ := List.cons.inj hafter
        simp [TokenKind.IsMarked, htext]
      case isFalse => contradiction
    case case2 => trivial
    case case3 hnone hdigit =>
      have hoperator : isOperator c = false := Bool.eq_false_iff.mpr fun h => by
        rw [if_pos h] at hnone
        exact Operator.longestAt?_isSome h rest hnone
      simp only [Bool.or_eq_true, not_or, Bool.not_eq_true] at hquote hmark
      simp [isWordStart, isWord, hblank, hbreak, hoperator, isQuote, hquote, hmark, hdigit] at hword

theorem TokenKind.IsMarked.startsExpression {s : Sign} {us : List Sign} (h : s.kind.IsMarked c)
    (hbrace : c ≠ '\x7b') (hsemicolon : c ≠ ';') : StartsExpression (s :: us) := by
  refine ⟨s, us, rfl, ?_, ?_, ?_⟩ <;> cases hk : s.kind <;> simp [hk, TokenKind.IsMarked] at h ⊢
  case string | number | regex => rfl
  case operator op =>
    have hne : op ≠ .leftBrace ∧ op ≠ .semicolon := by
      constructor <;> rintro rfl <;> simp [Operator.spelling] at h
      · exact hbrace h.symm
      · exact hsemicolon h.symm
    simp [TokenKind.opensStatement, hne]

theorem TokenKind.IsMarked.leaveName {s : Sign} {us : List Sign} (h : s.kind.IsMarked c) (hcolon : c ≠ ':') :
    LeaveName (s :: us) := by
  refine ⟨s, us, rfl, fun hk => ?_, fun hk => ?_⟩ <;> simp [hk, TokenKind.IsMarked] at h
  simp [Operator.spelling] at h
  exact hcolon h.symm

namespace Pen.Offers

variable {q : Pen} {P : List Sign → Prop}

-- A mark, whatever stands behind it.
theorem mark (hc : IsMark c) (hslash : KeepsSlash [c] rest)
    (hP : ∀ s us, s.kind.IsMarked c → P (s :: us)) : q.Offers (c :: rest) P := by
  intro behind offset limit stop hlimit
  obtain ⟨limit, rfl⟩ := Nat.exists_eq_add_one_of_ne_zero (n := limit) (by simp at hlimit; omega)
  let s := q.scanner behind (c :: rest) offset
  obtain ⟨t, hkind, -, -, htokens⟩ := tokensWithin_cons (s := s) rfl rfl limit
  have hmarked : t.kind.IsMarked c := hkind ▸ piece_isMarked hc hslash _ _
  have htrivia : ¬t.isTrivia := by
    rw [Token.isTrivia]
    cases hk : t.kind <;> simp [hk, TokenKind.IsMarked, TokenKind.isTrivia] at hmarked ⊢
  rw [htokens, List.cons_append, Token.signs_of_not_isTrivia htrivia]
  exact hP _ _ hmarked

-- A word that is whole, and what stands behind it.
theorem word {Q : List Sign → Prop} (hc : isWordStart c) (ht : ∀ d ∈ text, isWord d)
    (hr : ∀ d ∈ rest.head?, isWord d = false) (hl : q.startsLine = false)
    (h : (q.note (Scanner.word (c :: text)).kind (Scanner.word (c :: text)).marks).Offers rest Q)
    (hP : ∀ us, Q us → P (Sign.word (String.ofList (c :: text)) false :: us)) :
    q.Offers (c :: text ++ rest) P := by
  have hcut := Offers.cut (t := Sign.word (String.ofList (c :: text)) false) (P := Q)
    (by simpa [Sign.word] using h) (Sign.word_isCut String.toList_ofList hc ht) hl.symm
    ((TokenKind.apart_of_isWord (word_kind_isWord _)).mpr hr) hP
  simpa using hcut

end Pen.Offers

theorem Operator.exists_mark {op : Operator} (h : op.isWord = false) :
    ∃ c rest, op.spelling.toList = c :: rest ∧ IsMark c ∧ Character.isWord c = false ∧
      KeepsSlash [c] rest ∧ (c = ':' → op = .colon) ∧ (c = '\x7b' → op = .leftBrace) ∧
        (c = ';' → op = .semicolon) := by
  have hall : ∀ op ∈ Operator.all, op.isWord = false → ∀ c ∈ op.spelling.toList.head?,
      IsMark c ∧ Character.isWord c = false ∧ KeepsSlash [c] op.spelling.toList.tail ∧
        (c = ':' → op = .colon) ∧ (c = '\x7b' → op = .leftBrace) ∧ (c = ';' → op = .semicolon) := by
    decide +kernel
  obtain ⟨c, rest, hp⟩ := List.exists_cons_of_ne_nil op.spelling_ne_nil
  have hop := hall op op.mem_all h c (by rw [hp]; rfl)
  rw [hp] at hop
  exact ⟨c, rest, hp, hop⟩

theorem Keyword.word_kind (k : Keyword) : (Scanner.word k.spelling.toList).kind = .keyword k :=
  Sign.keyword_kind k false

theorem Operator.exists_keyword {op : Operator} (h : op.isWord) :
    ∃ k : Keyword, op.spelling = k.spelling ∧ k ≠ .functionWord := by
  cases op
  case inside => exact ⟨.inWord, rfl, by decide⟩
  case instanceOf => exact ⟨.instanceofWord, rfl, by decide⟩
  all_goals cases h

/-! ### Texts that are settled, and texts that are not yet -/

-- An expression starts with the text, whatever is written behind it.
def IsSettledText (text : List Char) : Prop :=
  ∀ more, KeepsSlash text more → ({} : Pen).Offers (text ++ more) StartsExpression

theorem IsSettledText.append (h : IsSettledText text) (hrest : KeepsSlash text rest) : IsSettledText (text ++ rest) := by
  intro more hmore
  rw [List.append_assoc]
  refine h _ fun hslash d hd => ?_
  cases rest
  case nil => exact hmore (by simpa using hslash) d hd
  case cons e rest => exact hrest hslash d hd

theorem IsSettledText.mark (hc : IsMark c) (hbrace : c ≠ '\x7b') (hsemicolon : c ≠ ';')
    (hrest : KeepsSlash [c] rest) : IsSettledText (c :: rest) :=
  have h : IsSettledText [c] := fun _ hmore => .mark hc hmore fun _ _ h => h.startsExpression hbrace hsemicolon
  h.append hrest

-- A word that an expression can start with.
structure IsOpening (word : List Char) : Prop where
  spelled : ∃ c text, word = c :: text ∧ isWordStart c ∧ ∀ d ∈ text, isWord d
  opens   : (Scanner.word word).kind.opensStatement = false

namespace IsOpening

variable {word : List Char}

theorem chars (h : IsOpening word) : ∀ d ∈ word, isWord d := by
  obtain ⟨⟨c, text, rfl, hc, ht⟩, -⟩ := h
  exact List.forall_mem_cons.mpr ⟨isWord_of_isWordStart hc, ht⟩

-- Only behind a name it matters what comes next.
theorem offers (h : IsOpening word) (hr : ∀ d ∈ rest.head?, isWord d = false)
    (hname : (Scanner.word word).kind = .identifier → ∀ q : Pen, q.startsLine = false →
      q.Offers rest LeaveName) : ({} : Pen).Offers (word ++ rest) StartsExpression := by
  obtain ⟨⟨c, text, rfl, hc, ht⟩, hopens⟩ := h
  refine .word (Q := fun us => (Scanner.word (c :: text)).kind = .identifier → LeaveName us) hc ht hr rfl
    (fun _ _ _ _ hlimit hk => hname hk _ rfl _ _ _ _ hlimit) fun us hus => ⟨_, us, rfl, ?_, ?_, ?_⟩
  · simpa [Sign.word] using word_kind_ne_endOfInput _
  · simpa [Sign.word] using hopens
  · simpa [Sign.word] using hus

-- What is no name is settled by its end.
theorem settled_of_ne (h : IsOpening word) (hk : (Scanner.word word).kind ≠ .identifier)
    (hd : isWord d = false) : IsSettledText (word ++ d :: rest) := by
  intro more _
  rw [List.append_assoc]
  exact h.offers (by simpa using hd) (absurd · hk)

-- A mark other than a colon settles it.
theorem settled_of_mark (h : IsOpening word) (hgap : ∀ d ∈ gap, d = ' ') (hmark : IsMark d)
    (hd : isWord d = false) (hcolon : d ≠ ':') (hrest : KeepsSlash [d] rest) :
    IsSettledText (word ++ gap ++ d :: rest) := by
  have hbare : IsSettledText (word ++ gap ++ [d]) := by
    intro more hmore
    have hmore : KeepsSlash [d] more := fun hslash => hmore (by simpa using hslash)
    rw [List.append_assoc, List.append_assoc, List.singleton_append]
    refine h.offers (fun e he => ?_) fun _ q _ => .blanks (.mark hmark hmore fun _ _ h => h.leaveName hcolon)
      hgap fun e he => ?_
    · cases gap
      case nil => cases he; exact hd
      case cons => cases he; exact hgap e (.head _) ▸ rfl
    · cases he
      exact hmark.2.1
  have hrest : KeepsSlash (word ++ gap ++ [d]) rest := fun hslash => hrest (by simpa using hslash)
  simpa using hbare.append hrest

-- So does a keyword, unless it makes a function of the name.
theorem settled_of_keyword (h : IsOpening word) {k : Keyword} (hk : k ≠ .functionWord)
    (hgap : ∀ d ∈ gap, d = ' ') (hne : gap ≠ []) : IsSettledText (word ++ gap ++ k.spelling.toList ++ [' ']) := by
  intro more _
  have hkind := k.word_kind
  obtain ⟨c, text, htext, hc, ht⟩ := k.isPrintable.spelled
  rw [htext] at hkind ⊢
  rw [List.append_assoc, List.append_assoc, List.append_assoc]
  refine h.offers (fun e he => ?_) fun _ q hq => .blanks ?_ hgap fun e he => ?_
  · obtain ⟨d, gap, rfl⟩ := List.exists_cons_of_ne_nil hne
    cases he
    exact hgap e (.head _) ▸ rfl
  · refine .word (Q := fun _ => True) hc ht (fun e he => by cases he; rfl) hq (fun _ _ _ _ _ => trivial)
      fun us _ => ⟨_, us, rfl, ?_, ?_⟩
    · simp [Sign.word, hkind]
    · simp [Sign.word, hkind, hk]
  · cases he
    have hw := isWord_of_isWordStart hc
    simp only [isWord, Bool.and_eq_true, Bool.not_eq_true'] at hw
    exact hw.1.1.1

end IsOpening

end

-- A word with a character that printed words do not have is no keyword.
theorem opensStatement_of_not_isPrintedWord {text : List Char} {c : Char} (hc : c ∈ text)
    (hprinted : isPrintedWord c = false) : (Scanner.word text).kind.opensStatement = false := by
  have hkeyword (k : Keyword) : Keyword.ofSpelling? (String.ofList text) ≠ some k := by
    intro hk
    have hchars := k.isPrintable.chars c
    rw [Keyword.ofSpelling?_spelling hk, String.toList_ofList, hprinted] at hchars
    exact Bool.false_ne_true (hchars hc)
  fun_cases Scanner.word text
  case case1 h | case2 h | case3 h => exact absurd h (hkeyword _)
  case case4 | case5 => rfl

theorem Keyword.isOpening {k : Keyword} (h : (TokenKind.keyword k).opensStatement = false) :
    IsOpening k.spelling.toList :=
  ⟨k.isPrintable.spelled, by rw [k.word_kind, h]⟩

theorem UnaryOperator.exists_keyword {op : UnaryOperator} (h : op.isWord) :
    ∃ k : Keyword, op.spelling = k.spelling ∧ (TokenKind.keyword k).opensStatement = false := by
  cases op
  case voidWord => exact ⟨.voidWord, rfl, rfl⟩
  case typeofWord => exact ⟨.typeofWord, rfl, rfl⟩
  case deleteWord => exact ⟨.deleteWord, rfl, rfl⟩
  all_goals cases h

/-! ### Writers -/

namespace Writer

variable {w : Writer} {piece : String} {c : Char} {rest : List Char}

-- What is written is settled.
def IsSettled (w : Writer) : Prop :=
  IsSettledText w.written.reverse

-- A single word is written, with spaces behind it at most.
def IsPending (w : Writer) : Prop :=
  w.breaks = false ∧ ∃ word gap, w.written.reverse = word ++ gap ∧ IsOpening word ∧ ∀ d ∈ gap, d = ' '

theorem merges_of_isPrintedWord {d : Char} (hd : isPrintedWord d) (c : Char) : merges d c = isPrintedWord c := by
  have hmark : d ≠ '+' ∧ d ≠ '-' ∧ d ≠ '/' := by
    refine ⟨?_, ?_, ?_⟩ <;> rintro rfl <;>
      exact Bool.eq_false_iff.mp (not_isPrintedWord_of_structural _ (by decide)) hd
  simp [merges, hd, beq_false_of_ne hmark.1, beq_false_of_ne hmark.2.1, beq_false_of_ne hmark.2.2]

-- What keeps a piece apart from what stands before it.
def separator (w : Writer) (c : Char) : List Char :=
  if w.last?.any (merges · c) then [' '] else []

theorem write_eq_of_cons (hp : piece.toList = c :: rest) (w : Writer) : w.write piece =
    { w.flush with written := piece.toList.reverse ++ w.flush.separator c ++ w.flush.written } := by
  unfold write
  rw [hp]
  rfl

theorem flush_eq_self (hb : w.breaks = false) : w.flush = w := by
  simp [flush, hb]

theorem write_space_eq (hb : w.breaks = false) (hp : piece.toList = c :: rest) (hs : w.separator c = [])
    (hend : piece.toList.getLast? ≠ some ' ') :
    (w.write piece).space.written.reverse = w.written.reverse ++ piece.toList ++ [' '] := by
  have hne : piece.toList.reverse ≠ [] := by simp [hp]
  have hhead : (piece.toList.reverse ++ w.written).head? ≠ some ' ' := by
    rwa [List.head?_append_of_ne_nil _ hne, List.head?_reverse]
  rw [write_eq_of_cons hp, flush_eq_self hb, hs, List.append_nil, Writer.space, if_neg]
  · simp
  · simp only [last?, hb, Bool.false_or, Bool.or_eq_true, List.isEmpty_iff, List.append_eq_nil_iff, hne,
      beq_iff_eq, hhead, false_and, or_self, not_false_eq_true]

theorem separator_keepsSlash (w : Writer) (c : Char) (rest : List Char) :
    KeepsSlash w.written.reverse (w.separator c ++ c :: rest) := by
  intro hslash d hd
  have hlast : w.last? = some '/' := by simpa [last?] using hslash
  rw [separator, hlast, Option.any_some] at hd
  split at hd
  case isTrue =>
    cases hd
    decide
  case isFalse hm =>
    cases hd
    constructor <;> rintro rfl <;> simp [merges] at hm

-- Whatever is written, it makes no comment of a slash that stands before it.
theorem write_extends (w : Writer) (piece : String) : ∃ rest,
    (w.write piece).written.reverse = w.written.reverse ++ rest ∧ KeepsSlash w.written.reverse rest := by
  rcases hp : piece.toList with _ | ⟨c, rest⟩
  case nil => exact ⟨[], by simp [write, hp], fun _ _ hc => by cases hc⟩
  case cons =>
    rw [write_eq_of_cons hp]
    by_cases hb : w.breaks ∧ w.written ≠ []
    case pos =>
      obtain ⟨gap, -, hflush⟩ := flush_of_breaks hb.1 hb.2
      rw [hflush]
      generalize separator _ c = between
      refine ⟨'\n' :: (gap.reverse ++ (between.reverse ++ piece.toList)), by simp, fun _ _ hc => ?_⟩
      cases hc
      decide
    case neg =>
      rw [flush_of_not_breaks hb]
      refine ⟨w.separator c ++ piece.toList, ?_, hp ▸ w.separator_keepsSlash c rest⟩
      simp only [separator]
      split <;> simp_all [last?]

namespace IsSettled

theorem extend {v : Writer} (h : w.IsSettled) (hrest : KeepsSlash w.written.reverse rest)
    (hv : v.written.reverse = w.written.reverse ++ rest) : v.IsSettled := by
  rw [IsSettled, hv]
  exact IsSettledText.append h hrest

theorem write (h : w.IsSettled) (piece : String) : (w.write piece).IsSettled :=
  have ⟨_, hv, hrest⟩ := w.write_extends piece
  h.extend hrest hv

theorem space (h : w.IsSettled) : w.space.IsSettled := by
  unfold Writer.space
  split
  case isTrue => exact h
  case isFalse =>
    have hspace : KeepsSlash w.written.reverse [' '] := fun _ d hd => by
      cases hd
      decide
    exact h.extend hspace (by simp)

theorem optionalSpace (h : w.IsSettled) : w.optionalSpace.IsSettled := by
  unfold Writer.optionalSpace
  split
  case isTrue => exact h.space
  case isFalse => exact h

theorem newline (h : w.IsSettled) : w.newline.IsSettled := by
  unfold Writer.newline
  split <;> exact h

-- Everything that is printed behind settled text leaves it so.
theorem isKept : IsKept (fun _ => True) True fun w v => w = v ∧ w.IsSettled where
  visible _ := trivial
  write | _, ⟨rfl, h⟩ => ⟨rfl, h.write _⟩
  space | ⟨rfl, h⟩ => ⟨rfl, h.space⟩
  optionalSpace | ⟨rfl, h⟩ => ⟨rfl, h.optionalSpace⟩
  newline | ⟨rfl, h⟩ => ⟨rfl, h.newline⟩
  indent | ⟨rfl, h⟩ => ⟨rfl, h⟩
  dedent | ⟨rfl, h⟩ => ⟨rfl, h⟩
  lastMark? | ⟨rfl, _⟩ => rfl
  encloses | ⟨rfl, _⟩ => rfl
  memberStyle | _, ⟨rfl, _⟩ => rfl

-- The same for one writer.
theorem keep {f : Writer → Writer} (hf : Keeps (fun w v => w = v ∧ w.IsSettled) f) (h : w.IsSettled) :
    (f w).IsSettled :=
  (hf ⟨rfl, h⟩).2

theorem emit_keeps (n : Node) (p : Place) : Keeps (fun w v => w = v ∧ w.IsSettled) (n.emit p) :=
  n.emit_keeps isKept (fun _ _ _ _ _ => trivial) (fun _ _ _ _ => trivial) p

theorem emit (h : w.IsSettled) (n : Node) (p : Place) : (n.emit p w).IsSettled :=
  h.keep (emit_keeps n p)

theorem emitForm (h : w.IsSettled) (isBeforeIn isHead : Bool) (form : Form Node) :
    (emitForm isBeforeIn isHead form w).IsSettled :=
  h.keep (Form.emit_keeps isKept (fun _ _ => trivial) (fun _ => ⟨trivial, fun _ _ _ _ => trivial⟩)
    (fun n _ p => emit_keeps n p) isBeforeIn isHead)

theorem emitItems (h : w.IsSettled) (p : Place) (isFirst : Bool) (ns : List Node) :
    (emitItems p isFirst ns w).IsSettled :=
  h.keep (emitItems_keeps isKept isFirst fun n _ => emit_keeps n p)

theorem emitElements (h : w.IsSettled) (p : Place) (isFirst : Bool) (es : List (Option Node)) :
    (emitElements p isFirst es w).IsSettled :=
  h.keep (emitElements_keeps isKept isFirst fun n _ => emit_keeps n p)

theorem infixOperator (h : w.IsSettled) (op : Operator) : (w.infixOperator op.spelling).IsSettled :=
  (isKept.infixOperator _ op.isVisible ⟨rfl, h⟩).2

end IsSettled

/-! ### Behind a word that may go on -/

namespace IsPending

theorem space_eq (h : w.IsPending) : w.space.breaks = false ∧ ∃ word gap,
    w.space.written.reverse = word ++ gap ∧ IsOpening word ∧ (∀ d ∈ gap, d = ' ') ∧ gap ≠ [] := by
  obtain ⟨hb, word, gap, hw, hword, hgap⟩ := h
  have hlast : w.last? = (word ++ gap).getLast? := by rw [← hw, List.getLast?_reverse, last?]
  unfold Writer.space
  split
  case isTrue hspace =>
    refine ⟨hb, word, gap, hw, hword, hgap, ?_⟩
    rintro rfl
    have hne : w.written ≠ [] := by
      rintro hnil
      obtain ⟨⟨c, text, rfl, -⟩, -⟩ := hword
      simp [hnil] at hw
    have hspace : w.last? = some ' ' := by simpa [hb, hne] using hspace
    rw [hlast, List.append_nil] at hspace
    exact absurd (hword.chars ' ' (List.mem_of_getLast? hspace)) (by decide)
  case isFalse =>
    refine ⟨hb, word, gap ++ [' '], by simp [hw], hword, fun d hd => ?_, by simp⟩
    rcases List.mem_append.mp hd with hd | hd
    · exact hgap d hd
    · exact List.mem_singleton.mp hd

theorem space (h : w.IsPending) : w.space.IsPending :=
  have ⟨hb, word, gap, hw, hword, hgap, _⟩ := h.space_eq
  ⟨hb, word, gap, hw, hword, hgap⟩

theorem optionalSpace (h : w.IsPending) : w.optionalSpace.IsPending := by
  unfold Writer.optionalSpace
  split
  case isTrue => exact h.space
  case isFalse => exact h

-- A mark behind the word, other than a colon.
theorem mark (h : w.IsPending) (hp : piece.toList = c :: rest) (hmark : IsMark c) (hc : isWord c = false)
    (hcolon : c ≠ ':') (hrest : KeepsSlash [c] rest) : (w.write piece).IsSettled := by
  obtain ⟨hb, word, gap, hw, hword, hgap⟩ := h
  have hsettled : IsSettledText (word ++ (gap ++ (w.separator c).reverse) ++ c :: rest) := by
    refine hword.settled_of_mark (fun d hd => ?_) hmark hc hcolon hrest
    rcases List.mem_append.mp hd with hd | hd
    · exact hgap d hd
    · unfold separator at hd
      split at hd <;> simp_all
  rw [IsSettled, write_eq_of_cons hp, flush_eq_self hb]
  simpa [hp, hw] using hsettled

theorem operator (h : w.IsPending) (op : Operator) (hword : op.isWord = false) (hop : op ≠ .colon) :
    (w.write op.spelling).IsSettled := by
  obtain ⟨c, rest, hp, hmark, hc, hslash, hcolon, -⟩ := Operator.exists_mark hword
  exact h.mark hp hmark hc (mt hcolon hop) hslash

-- An operator between the word and another operand.
theorem infixOperator (h : w.IsPending) {op : Operator} (hop : op ≠ .colon) :
    (w.infixOperator op.spelling).IsSettled := by
  unfold Writer.infixOperator
  cases hword : op.isWord
  case false =>
    obtain ⟨c, rest, hp, -, hc, -⟩ := Operator.exists_mark hword
    have hprinted : ¬isPrintedWord c := fun hprinted => by simp [isWord_of_isPrintedWord hprinted] at hc
    rw [if_neg (by simp [hp, hprinted])]
    exact (h.optionalSpace.operator op hword hop).optionalSpace
  case true =>
    obtain ⟨k, hspelling, hk⟩ := Operator.exists_keyword hword
    obtain ⟨hb, word, gap, hw, hopening, hgap, hne⟩ := h.space_eq
    have hlast : w.space.last? = some ' ' := by
      rw [last?, ← List.getLast?_reverse, hw, List.getLast?_append_of_ne_nil _ hne,
        List.getLast?_eq_some_getLast hne, hgap _ (List.getLast_mem hne)]
    obtain ⟨c, rest, hp, -⟩ := k.isPrintable.spelled
    have hprinted : isPrintedWord c := k.isPrintable.chars c (hp ▸ .head _)
    have hend : k.spelling.toList.getLast? ≠ some ' ' := fun hend =>
      Bool.eq_false_iff.mp (not_isPrintedWord_of_structural ' ' (by decide))
        (k.isPrintable.chars ' ' (List.mem_of_getLast? hend))
    rw [hspelling, if_pos (by simp [hp, hprinted]), IsSettled,
      write_space_eq hb hp (by rw [separator, hlast, Option.any_some, merges_space]; rfl) hend, hw]
    exact hopening.settled_of_keyword hk hgap hne

end IsPending

-- What is written is settled, or will be by the next operator.
def IsReady (w : Writer) : Prop :=
  w.IsSettled ∨ w.IsPending

namespace IsReady

theorem mark (h : w.IsReady) (hp : piece.toList = c :: rest) (hmark : IsMark c) (hc : isWord c = false)
    (hcolon : c ≠ ':') (hrest : KeepsSlash [c] rest) : (w.write piece).IsSettled :=
  h.elim (·.write piece) (·.mark hp hmark hc hcolon hrest)

theorem operator (h : w.IsReady) (op : Operator) (hword : op.isWord = false) (hop : op ≠ .colon) :
    (w.write op.spelling).IsSettled :=
  h.elim (·.write _) (·.operator op hword hop)

theorem infixOperator (h : w.IsReady) {op : Operator} (hop : op ≠ .colon) :
    (w.infixOperator op.spelling).IsSettled :=
  h.elim (·.infixOperator op) (·.infixOperator hop)

end IsReady

/-! ### Where an expression starts -/

-- Nothing is written.
structure IsFresh (w : Writer) : Prop where
  line : w.breaks = false
  text : w.written = []

-- A keyword is written that an expression can start with, and nothing else.
structure IsBehind (k : Keyword) (w : Writer) : Prop where
  line  : w.breaks = false
  text  : w.written.reverse = k.spelling.toList
  opens : (TokenKind.keyword k).opensStatement = false

inductive IsAtStart (w : Writer) : Prop
  | fresh : w.IsFresh → IsAtStart w
  | behind {k : Keyword} : w.IsBehind k → IsAtStart w

theorem IsFresh.write (h : w.IsFresh) (hp : piece.toList = c :: rest) :
    (w.write piece).breaks = false ∧ (w.write piece).written.reverse = piece.toList := by
  rw [write_eq_of_cons hp, flush_eq_self h.line]
  simp [h.line, h.text, separator, last?]

namespace IsBehind

variable {k : Keyword}

theorem last?_eq (h : w.IsBehind k) : ∃ d, w.last? = some d ∧ isPrintedWord d := by
  obtain ⟨d, hd⟩ := Option.ne_none_iff_exists'.mp (mt List.getLast?_eq_none_iff.mp k.isPrintable.nonempty)
  refine ⟨d, ?_, k.isPrintable.chars d (List.mem_of_getLast? hd)⟩
  rw [last?, ← List.getLast?_reverse, h.text, hd]

theorem write_eq (h : w.IsBehind k) (hp : piece.toList = c :: rest) : (w.write piece).breaks = false ∧
    (w.write piece).written.reverse =
      k.spelling.toList ++ ((if isPrintedWord c then [' '] else []) ++ piece.toList) := by
  obtain ⟨d, hlast, hd⟩ := h.last?_eq
  have hseparator : w.separator c = if isPrintedWord c then [' '] else [] := by
    rw [separator, hlast, Option.any_some, merges_of_isPrintedWord hd]
  rw [write_eq_of_cons hp, flush_eq_self h.line, hseparator]
  cases isPrintedWord c <;> simp [h.line, h.text]

-- The keyword is settled by what ends it.
theorem settled_append (h : w.IsBehind k) (hc : isWord c = false) (rest : List Char) :
    IsSettledText (k.spelling.toList ++ c :: rest) :=
  (Keyword.isOpening h.opens).settled_of_ne (by simp [k.word_kind]) hc

theorem write (h : w.IsBehind k) (hp : piece.toList = c :: rest) (hc : isPrintedWord c ∨ isWord c = false) :
    (w.write piece).IsSettled := by
  rw [IsSettled, (h.write_eq hp).2, hp]
  split
  case isTrue => exact h.settled_append (by decide) _
  case isFalse hother => exact h.settled_append (hc.resolve_left hother) _

theorem space (h : w.IsBehind k) : w.space.IsSettled := by
  obtain ⟨d, hlast, hd⟩ := h.last?_eq
  have hne : d ≠ ' ' := by
    rintro rfl
    exact Bool.eq_false_iff.mp (not_isPrintedWord_of_structural _ (by decide)) hd
  have hwritten : w.written ≠ [] := by
    intro hnil
    simp [last?, hnil] at hlast
  rw [Writer.space, if_neg (by simp [h.line, hwritten, hlast, hne]), IsSettled, List.reverse_cons, h.text]
  exact h.settled_append (by decide) _

theorem function {i f g : Writer → Writer} (h : w.IsBehind k) (traits : FunctionTraits) (hasId : Bool)
    (hi : Keeps (fun w v => w = v ∧ w.IsSettled) i) (hf : Keeps (fun w v => w = v ∧ w.IsSettled) f)
    (hg : Keeps (fun w v => w = v ∧ w.IsSettled) g) : (w.function traits hasId i f g).IsSettled := by
  have hword : ((if traits.isAsync then (w.write "async").space else w).write "function").IsSettled := by
    cases traits.isAsync
    case true => exact (h.write rfl (.inl (isPrintable_async.chars 'a' (by decide)))).space.write _
    case false => exact h.write rfl (.inl ((Keyword.isPrintable .functionWord).chars 'f' (by decide)))
  exact (IsSettled.isKept.functionRest traits.isGenerator hasId hi hf hg ⟨rfl, hword⟩).2

end IsBehind

namespace IsAtStart

theorem mark (h : w.IsAtStart) (hp : piece.toList = c :: rest) (hmark : IsMark c) (hbrace : c ≠ '\x7b')
    (hsemicolon : c ≠ ';') (hrest : KeepsSlash [c] rest) : (w.write piece).IsSettled := by
  cases h
  case fresh h =>
    rw [IsSettled, (h.write hp).2, hp]
    exact .mark hmark hbrace hsemicolon hrest
  case behind h =>
    refine h.write hp ?_
    cases hdigit : c.isDigit
    case true => exact .inl (isPrintedWord_of_isDigit hdigit)
    case false => exact .inr (by simpa [isWordStart, hdigit] using hmark.1)

theorem operator (h : w.IsAtStart) (op : Operator) (hword : op.isWord = false) (hbrace : op ≠ .leftBrace)
    (hsemicolon : op ≠ .semicolon) : (w.write op.spelling).IsSettled := by
  obtain ⟨c, rest, hp, hmark, -, hslash, -, hbrace', hsemicolon'⟩ := Operator.exists_mark hword
  exact h.mark hp hmark (mt hbrace' hbrace) (mt hsemicolon' hsemicolon) hslash

theorem paren (h : w.IsAtStart) : (w.write "(").IsSettled :=
  h.operator .leftParen rfl (by decide) (by decide)

theorem word {name : String} (h : w.IsAtStart) (hname : IsOpening name.toList) : (w.write name).IsReady := by
  obtain ⟨c, rest, hp, hc, hrest⟩ := hname.spelled
  cases h
  case fresh h =>
    exact .inr ⟨(h.write hp).1, name.toList, [], by rw [(h.write hp).2, List.append_nil], hname, nofun⟩
  case behind k h =>
    cases hprinted : isPrintedWord c
    case true => exact .inl (h.write hp (.inl hprinted))
    case false =>
      -- The writer takes the first character for no part of a word, so the keyword goes on with the name.
      obtain ⟨hline, htext⟩ := h.write_eq hp
      rw [hprinted, if_neg Bool.false_ne_true, List.nil_append] at htext
      refine .inr ⟨hline, _, [], by rw [htext, List.append_nil], ⟨?_, ?_⟩, nofun⟩
      · obtain ⟨e, text, htext, he, hletters⟩ := k.isPrintable.spelled
        exact ⟨e, text ++ name.toList, by rw [htext]; rfl, he,
          List.forall_mem_append.mpr ⟨hletters, hname.chars⟩⟩
      · exact opensStatement_of_not_isPrintedWord (List.mem_append_right _ (hp ▸ .head _)) hprinted

theorem keyword (h : w.IsAtStart) {k : Keyword} (hk : (TokenKind.keyword k).opensStatement = false) :
    (w.write k.spelling).IsSettled ∨ (w.write k.spelling).IsBehind k := by
  obtain ⟨c, rest, hp, -⟩ := k.isPrintable.spelled
  cases h
  case fresh h => exact .inr ⟨(h.write hp).1, (h.write hp).2, hk⟩
  case behind h => exact .inl (h.write hp (.inl (k.isPrintable.chars c (hp ▸ .head _))))

theorem literal {t : Token} (h : w.IsAtStart) (ht : t.IsScanned) (hk : (Grammar.literalKind? t).isSome)
    (kind : LiteralKind) : (w.literal kind t.value).IsReady := by
  unfold Writer.literal
  dsimp only
  split
  case isTrue => exact .inl ((h.paren.write _).write _)
  case isFalse =>
    obtain ⟨k, span, value, marks, position, embeddings⟩ := t
    simp only [Token.IsScanned] at ht
    dsimp only
    generalize htext : value.toList = text at ht
    obtain ⟨kind', hk⟩ := Option.isSome_iff_exists.mp hk
    cases ht with
    | trivia htrivia =>
      revert hk htrivia
      cases k <;> simp [Grammar.literalKind?, TokenKind.isTrivia]
    | quoted hq =>
      rcases hq with rfl | rfl <;>
        exact .inl (h.mark htext (by decide) (by decide) (by decide) (.of_ne (by decide) _))
    | template => exact .inl (h.mark htext (by decide) (by decide) (by decide) (.of_ne (by decide) _))
    | @regex behind text found hslash hfound =>
      refine .inl (h.mark htext (by decide) (by decide) (by decide) fun _ d hd => ?_)
      obtain ⟨after, rfl⟩ := Lexeme.regex?_isPrefix hfound
      have hd : (found ++ after).head? = some d := by rw [List.head?_append, hd]; rfl
      exact ⟨fun hd' => hslash.1 (hd' ▸ hd), fun hd' => hslash.2 (hd' ▸ hd)⟩
    | operator => cases hk
    | @number c text hd =>
      have hne : Lexeme.number (c :: text) ≠ [] := Lexeme.number_ne_nil hd
      obtain ⟨d, rest, hnumber⟩ := List.exists_cons_of_ne_nil hne
      obtain ⟨after, hafter⟩ := Lexeme.number_isPrefix (c :: text)
      rw [hnumber] at hafter htext
      obtain ⟨rfl, -⟩ := List.cons.inj hafter
      have hne {e : Char} (he : e.isDigit = false) : d ≠ e := by
        rintro rfl
        exact absurd hd (by simp [he])
      exact .inl (h.mark htext (.of_isDigit hd) (hne (by decide)) (hne (by decide))
        (.of_ne (hne (by decide)) _))
    | @word c text hd htext' =>
      obtain ⟨special, hspecial⟩ := special_of_literalKind? (word_kind_isWord _) hk
      have hspecial : (Scanner.word (c :: text)).kind = .special special := hspecial
      refine h.word ⟨⟨c, text, htext, hd, htext'⟩, ?_⟩
      rw [htext, hspecial]
      rfl

end IsAtStart
end Writer

end ScriptTree
