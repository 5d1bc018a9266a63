import Mathlib.Data.List.Basic
import Mathlib.Data.List.Induction
import ScriptTree.Proofs.Token.Balance
import ScriptTree.Proofs.Token.Rescan
import ScriptTree.Proofs.Token.Sequence

/-!
A slash behind a closing parenthesis.

The scanner keeps a stack of the parentheses that are open, and of each it knows whether the token in front
of it was one of the words that a head follows. The stack is right about nesting, whatever the other
brackets do. But a line break is a token in front of a parenthesis too, and the name of a property may be
one of the words. And behind a line break a slash is not judged by the parenthesis.
-/

namespace ScriptTree

namespace TokenKind

-- What the scanner does not remember.
def isGap : TokenKind → Bool
  | blank | comment => true
  | _ => false

def isParenthesis : TokenKind → Bool
  | operator .leftParen | operator .rightParen => true
  | _ => false

-- The words in front of a head in parentheses.
def takesHead : TokenKind → Bool
  | keyword .ifWord | keyword .whileWord | keyword .forWord | keyword .withWord => true
  | _ => false

end TokenKind

def parentheses (ts : List Token) : List Token :=
  ts.filter (·.kind.isParenthesis)

-- The last of the tokens, apart from blanks and comments, is one of the words.
def AnnouncesHead (ts : List Token) : Prop :=
  ∃ front word gap, ts = front ++ word :: gap ∧ word.kind.takesHead ∧ ∀ t ∈ gap, t.kind.isGap

-- Behind these tokens a closing parenthesis closes the head of a statement: one of the words stands in front
-- of the matching one.
def AwaitsHead (ts : List Token) : Prop :=
  ∃ front opening inner, ts = front ++ opening :: inner ∧ AnnouncesHead front ∧
    opening.kind = .operator .leftParen ∧ Balanced (parentheses inner)

variable {ts us front inner : List Token} {t : Token}

theorem announcesHead_concat :
    AnnouncesHead (ts ++ [t]) ↔ t.kind.takesHead ∨ t.kind.isGap ∧ AnnouncesHead ts := by
  constructor
  case mp =>
    rintro ⟨front, word, gap, h, hword, hgap⟩
    rcases gap.eq_nil_or_concat' with rfl | ⟨gap, u, rfl⟩
    · obtain rfl : t = word := List.singleton_inj.mp (List.append_inj' h rfl).2
      exact .inl hword
    · rw [← List.cons_append, ← List.append_assoc] at h
      obtain ⟨rfl, hu⟩ := List.append_inj' h rfl
      obtain rfl : t = u := List.singleton_inj.mp hu
      exact .inr ⟨hgap t (by simp), front, word, gap, rfl, hword, fun v hv => hgap v (by simp [hv])⟩
  case mpr =>
    rintro (hword | ⟨ht, front, word, gap, rfl, hword, hgap⟩)
    · exact ⟨ts, t, [], rfl, hword, nofun⟩
    · exact ⟨front, word, gap ++ [t], by simp, hword, by simp_all [or_imp]⟩

theorem parentheses_append (ts us : List Token) :
    parentheses (ts ++ us) = parentheses ts ++ parentheses us :=
  List.filter_append ..

namespace Scanner

open Character

variable {s : Scanner}

-- The scanner as it remembers the tokens that were passed.
def noteAll (s : Scanner) (ts : List Token) : Scanner :=
  ts.foldl (fun s t => s.note t.kind t.marks) s

theorem noteAll_append (s : Scanner) (ts us : List Token) :
    s.noteAll (ts ++ us) = (s.noteAll ts).noteAll us :=
  List.foldl_append ..

theorem noteAll_concat (s : Scanner) (ts : List Token) (t : Token) :
    s.noteAll (ts ++ [t]) = (s.noteAll ts).note t.kind t.marks :=
  noteAll_append ..

theorem note_of_isGap {kind : TokenKind} (h : kind.isGap) (s : Scanner) (marks : Marks) :
    s.note kind marks = s := by
  cases kind <;> first | rfl | cases h

-- Of the trivia a line break alone counts: behind it a regular expression may start.
theorem noteAll_regexAllowed (h : ∀ t ∈ ts, t.isTrivia) (s : Scanner) :
    (s.noteAll ts).regexAllowed ↔ s.regexAllowed ∨ ∃ t ∈ ts, t.kind = .lineBreak := by
  induction ts generalizing s
  case nil => simp [noteAll]
  case cons t ts ih =>
    have ⟨ht, hts⟩ := List.forall_mem_cons.mp h
    have ih := ih hts (s.note t.kind t.marks)
    obtain hk | hk | hk : t.kind = .comment ∨ t.kind = .lineBreak ∨ t.kind = .blank := by
      revert ht
      cases hk : t.kind <;> simp [Token.isTrivia, TokenKind.isTrivia, hk]
    all_goals
      rw [noteAll, List.foldl_cons, ← noteAll, ih, hk]
      simp [note, hk]

theorem note_lastKind {kind : TokenKind} (h : kind.isGap = false) (s : Scanner) (marks : Marks) :
    (s.note kind marks).lastKind = some kind := by
  unfold note
  split <;> first | rfl | cases h

theorem note_heads_of_not_isParenthesis {kind : TokenKind} (h : kind.isParenthesis = false) (s : Scanner)
    (marks : Marks) : (s.note kind marks).heads = s.heads := by
  unfold note
  split <;> first | rfl | cases h

theorem opensHead_some (kind : TokenKind) : opensHead (some kind) = kind.takesHead := by
  cases kind
  case keyword word => cases word <;> rfl
  all_goals rfl

-- What is remembered last is the last token that is no gap.
theorem opensHead_noteAll (hs : s.lastKind = none) (ts : List Token) :
    opensHead (s.noteAll ts).lastKind ↔ AnnouncesHead ts := by
  induction ts using List.reverseRecOn
  case nil => simp [noteAll, hs, opensHead, AnnouncesHead]
  case append_singleton ts t ih =>
    rw [noteAll_concat, announcesHead_concat]
    cases hgap : t.kind.isGap
    case true =>
      have hword : t.kind.takesHead = false := by
        cases hk : t.kind <;> first | rfl | simp [hk, TokenKind.isGap] at hgap
      simp [note_of_isGap hgap, ih, hword]
    case false => simp [note_lastKind hgap, opensHead_some]

/-! ### The stack of heads -/

theorem parentheses_cons_of_not_isParenthesis (h : t.kind.isParenthesis = false) :
    parentheses (t :: ts) = parentheses ts :=
  List.filter_cons_of_neg (by simp [h])

theorem parentheses_cons_of_isParenthesis (h : t.kind.isParenthesis) :
    parentheses (t :: ts) = t :: parentheses ts :=
  List.filter_cons_of_pos h

theorem eq_paren_of_isParenthesis {kind : TokenKind} (h : kind.isParenthesis) :
    kind = .operator .leftParen ∨ kind = .operator .rightParen := by
  cases kind
  case operator op => cases op <;> first | exact .inl rfl | exact .inr rfl | cases h
  all_goals cases h

-- The stack has one entry for each parenthesis that waits to be closed. Entries further down are left alone.
theorem noteAll_heads {waiting waiting' : List TokenKind} {top heads : List Bool}
    (h : nesting? waiting (parentheses ts) = some waiting') (hs : s.heads = top ++ heads)
    (hl : top.length = waiting.length) :
    ∃ top', (s.noteAll ts).heads = top' ++ heads ∧ top'.length = waiting'.length := by
  induction ts generalizing s waiting top
  case nil =>
    cases h
    exact ⟨top, hs, hl⟩
  case cons t ts ih =>
    cases hparen : t.kind.isParenthesis
    case false =>
      rw [parentheses_cons_of_not_isParenthesis hparen] at h
      exact ih h ((note_heads_of_not_isParenthesis hparen s t.marks).trans hs) hl
    case true =>
      rw [parentheses_cons_of_isParenthesis hparen] at h
      obtain ⟨next, hnext, h⟩ := Option.bind_eq_some_iff.mp h
      obtain hk | hk := eq_paren_of_isParenthesis hparen
      · rw [hk] at hnext
        cases hnext
        refine @ih (s.note t.kind t.marks) _ (opensHead s.lastKind :: top) h ?_ (by simp [hl])
        rw [hk, note, hs]
        rfl
      · rw [hk] at hnext
        rcases waiting with _ | ⟨k, waiting⟩
        · cases hnext
        · rcases top with _ | ⟨b, top⟩
          · cases hl
          · obtain ⟨-, rfl⟩ : _ ∧ waiting = next := by simpa [TokenKind.await?, TokenKind.closing?,
              TokenKind.isClosing] using hnext
            refine @ih (s.note t.kind t.marks) _ top h ?_ (by simpa using hl)
            rw [hk, note, hs]
            rfl

theorem noteAll_heads_of_balanced (h : Balanced (parentheses ts)) : (s.noteAll ts).heads = s.heads := by
  obtain ⟨top, htop, hlength⟩ := noteAll_heads h (List.nil_append _).symm rfl
  rw [htop, List.length_eq_zero_iff.mp hlength, List.nil_append]

-- What an entry on the stack says.
theorem noteAll_opening (hk : t.kind = .operator .leftParen) (h : Balanced (parentheses inner)) :
    (s.noteAll (front ++ t :: inner)).heads =
      opensHead (s.noteAll front).lastKind :: (s.noteAll front).heads := by
  rw [← List.singleton_append, ← List.append_assoc, noteAll_append, noteAll_heads_of_balanced h,
    noteAll_concat, hk]
  rfl

theorem balanced_append (ht : Balanced ts) (hu : Balanced us) : Balanced (ts ++ us) :=
  (nesting?_append ht).trans hu

theorem balanced_enclosed {opening close : Token} (ho : opening.kind = .operator .leftParen)
    (hc : close.kind = .operator .rightParen) (h : Balanced ts) : Balanced (opening :: ts ++ [close]) := by
  have hopen : opening.kind.await? [] = some [.operator .rightParen] := by rw [ho]; rfl
  have hclose : close.kind.await? [.operator .rightParen] = some [] := by rw [hc]; rfl
  rw [Balanced, List.cons_append, nesting?_cons hopen]
  exact (nesting?_append (nesting?_under h [.operator .rightParen])).trans (nesting?_cons hclose)

-- Where an entry on the stack comes from. The induction is on the number of tokens: behind a closing
-- parenthesis the entry is found in front of the one that it closes.
theorem opening_of_heads (hs : s.heads = []) {b : Bool} {heads : List Bool}
    (h : (s.noteAll ts).heads = b :: heads) : ∃ front opening inner,
      ts = front ++ opening :: inner ∧ opening.kind = .operator .leftParen ∧ Balanced (parentheses inner) ∧
      b = opensHead (s.noteAll front).lastKind ∧ heads = (s.noteAll front).heads := by
  induction hn : ts.length using Nat.strongRecOn generalizing ts b heads
  case ind n ih =>
    subst hn
    rcases ts.eq_nil_or_concat' with rfl | ⟨ts, t, rfl⟩
    case inl => simp [noteAll, hs] at h
    case inr =>
      have hlt : ts.length < (ts ++ [t]).length := by simp
      rw [noteAll_concat] at h
      cases hparen : t.kind.isParenthesis
      case false =>
        rw [note_heads_of_not_isParenthesis hparen] at h
        obtain ⟨front, opening, inner, rfl, ho, hi, hb, hh⟩ := ih _ hlt h rfl
        refine ⟨front, opening, inner ++ [t], by simp, ho, ?_, hb, hh⟩
        have hlast : parentheses [t] = [] := parentheses_cons_of_not_isParenthesis hparen
        rwa [parentheses_append, hlast, List.append_nil]
      case true =>
        obtain hk | hk := eq_paren_of_isParenthesis hparen
        · rw [hk] at h
          obtain ⟨rfl, rfl⟩ := List.cons.inj h
          exact ⟨ts, t, [], rfl, hk, rfl, rfl, rfl⟩
        · have h : (s.noteAll ts).heads.tail = b :: heads := by
            rwa [hk] at h
          obtain ⟨b', h⟩ : ∃ b', (s.noteAll ts).heads = b' :: b :: heads := by
            cases hheads : (s.noteAll ts).heads
            case nil => simp [hheads] at h
            case cons b' _ => exact ⟨b', by rw [← h, hheads, List.tail_cons]⟩
          obtain ⟨outer, opening, inner, rfl, ho, hi, -, hh⟩ := ih _ hlt h rfl
          obtain ⟨front, opening', inner', rfl, ho', hi', hb, hh⟩ :=
            ih _ (by simp only [List.length_append, List.length_cons]; omega) hh.symm rfl
          refine ⟨front, opening', inner' ++ (opening :: inner ++ [t]), by simp, ho', ?_, hb, hh⟩
          have hnested := balanced_append hi' (balanced_enclosed ho hk hi)
          simpa [parentheses_append, parentheses, ho, hk, TokenKind.isParenthesis] using hnested

-- The parenthesis that is closed next opened a head exactly where one of the words stands in front of it.
theorem headD_noteAll (hs : s.heads = []) (hl : s.lastKind = none) (ts : List Token) :
    (s.noteAll ts).heads.headD false ↔ AwaitsHead ts := by
  constructor
  case mp =>
    intro h
    rcases hheads : (s.noteAll ts).heads with _ | ⟨b, heads⟩
    case nil => simp [hheads] at h
    case cons =>
      obtain rfl : b = true := by simpa [hheads] using h
      obtain ⟨front, opening, inner, rfl, ho, hi, hb, -⟩ := opening_of_heads hs hheads
      exact ⟨front, opening, inner, rfl, (opensHead_noteAll hl front).mp hb.symm, ho, hi⟩
  case mpr =>
    rintro ⟨front, opening, inner, rfl, hword, ho, hi⟩
    rw [noteAll_opening ho hi, List.headD_cons]
    exact (opensHead_noteAll hl front).mpr hword

/-! ### The scanner between two tokens -/

-- The scanner elsewhere, with what it remembers.
def goTo (s : Scanner) (behind ahead : List Char) (offset : Nat) : Scanner :=
  { s with behind, ahead, offset }

@[simp]
theorem goTo_ahead (s : Scanner) (behind ahead : List Char) (offset : Nat) :
    (s.goTo behind ahead offset).ahead = ahead := rfl

@[simp]
theorem goTo_offset (s : Scanner) (behind ahead : List Char) (offset : Nat) :
    (s.goTo behind ahead offset).offset = offset := rfl

@[simp]
theorem goTo_keepTrivia (s : Scanner) (behind ahead : List Char) (offset : Nat) :
    (s.goTo behind ahead offset).keepTrivia = s.keepTrivia := rfl

@[simp]
theorem goTo_regexAllowed (s : Scanner) (behind ahead : List Char) (offset : Nat) :
    (s.goTo behind ahead offset).regexAllowed = s.regexAllowed := rfl

theorem note_goTo (s : Scanner) (behind ahead : List Char) (offset : Nat) (kind : TokenKind)
    (marks : Marks) :
    (s.goTo behind ahead offset).note kind marks = (s.note kind marks).goTo behind ahead offset := by
  unfold note
  split <;> rfl

theorem noteAll_goTo (s : Scanner) (behind ahead : List Char) (offset : Nat) (ts : List Token) :
    (s.goTo behind ahead offset).noteAll ts = (s.noteAll ts).goTo behind ahead offset := by
  induction ts generalizing s
  case nil => rfl
  case cons t ts ih =>
    exact (congrArg (noteAll · ts) (note_goTo s behind ahead offset t.kind t.marks)).trans (ih _)

theorem noteAll_keepTrivia (s : Scanner) (ts : List Token) :
    (s.noteAll ts).keepTrivia = s.keepTrivia := by
  induction ts using List.reverseRecOn
  case nil => rfl
  case append_singleton ih => rw [noteAll_concat, note_keepTrivia, ih]

theorem scan_noted (nested : Scanner → List Token) (ha : s.ahead ≠ []) :
    (s.scan nested).2 = (s.note (s.scan nested).1.kind (s.scan nested).1.marks).goTo
      (s.scan nested).2.behind (s.scan nested).2.ahead (s.scan nested).2.offset := by
  obtain ⟨c, rest, ha⟩ := List.exists_cons_of_ne_nil ha
  simp only [scan, ha, note_behind, note_ahead, note_offset]
  exact note_goTo s _ _ _ _ _

-- The first token of a scanner that keeps trivia is the one that is scanned next.
theorem scan_of_tokens (hk : s.keepTrivia) (h : s.tokens = t :: us) :
    s.ahead ≠ [] ∧ (s.scan tokens).1 = t ∧ (s.scan tokens).2.tokens = us := by
  have ha : s.ahead ≠ [] := fun ha => by simp [tokens_of_ahead_eq_nil ha] at h
  rw [tokens_eq ha, hk] at h
  simp only [Bool.not_true, Bool.and_false, Bool.false_eq_true, if_false] at h
  exact ⟨ha, List.cons.inj h⟩

-- A scanner that keeps trivia, after the first of its tokens.
theorem tokens_after {source : List Char} {limit : Nat} (hk : s.keepTrivia) (hw : s.Within source limit)
    (h : s.tokens = ts ++ us) : ∃ behind ahead offset, Stands source limit behind ahead offset ∧
      ((s.noteAll ts).goTo behind ahead offset).tokens = us := by
  induction ts generalizing s
  case nil => exact ⟨_, _, _, hw, h⟩
  case cons t ts ih =>
    obtain ⟨ha, rfl, hus⟩ := scan_of_tokens hk h
    obtain ⟨behind, ahead, offset, hs, htokens⟩ :=
      ih ((scan_keepTrivia tokens s).trans hk) (scan_within hw) hus
    refine ⟨behind, ahead, offset, hs, ?_⟩
    rw [scan_noted tokens ha, noteAll_goTo] at htokens
    exact htokens

/-! ### The slash -/

-- Only what stands behind a character that is no backslash counts.
theorem isEscaped_append_cons {c : Char} (hc : c ≠ '\\') (text more : List Char) :
    Lexeme.isEscaped (text ++ c :: more) = Lexeme.isEscaped text := by
  induction text
  case nil => simp [Lexeme.isEscaped, hc]
  case cons ih => rw [List.cons_append, Lexeme.isEscaped_cons, Lexeme.isEscaped_cons, ih]

-- A slash that is not escaped, further on in the line, closes a regular expression.
theorem regex?_isSome {seen body more : List Char} (hbreak : ∀ c ∈ body, isLineBreak c = false)
    (h : Lexeme.isEscaped (body.reverse ++ seen) = false) :
    (Lexeme.regex? seen (body ++ '/' :: more)).isSome := by
  induction body generalizing seen
  case nil => simp_all [Lexeme.regex?, isLineBreak]
  case cons c body ih =>
    obtain ⟨hc, hbody⟩ := List.forall_mem_cons.mp hbreak
    rw [List.cons_append, Lexeme.regex?, hc]
    split
    case isTrue => contradiction
    case isFalse =>
      split
      case isTrue => rfl
      case isFalse =>
        rw [Option.isSome_map]
        exact ih hbody (by simpa using h)

theorem operatorOrWord_slash (rest : List Char) :
    (operatorOrWord '/' rest).kind = .operator .slash ∨
      (operatorOrWord '/' rest).kind = .operator .slashAssign := by
  have hoperator : isOperator '/' := by decide
  obtain ⟨op, hop⟩ := Option.ne_none_iff_exists'.mp (Operator.longestAt?_isSome hoperator rest)
  have hstarts : op.spelling.toList.head? = some '/' := by
    obtain ⟨more, hmore⟩ := Operator.longestAt?_isPrefix hop
    rcases hspelling : op.spelling.toList with _ | ⟨c, text⟩
    · exact absurd hspelling op.spelling_ne_nil
    · rw [hspelling] at hmore
      exact congrArg List.head? hmore
  have hpiece : (operatorOrWord '/' rest).kind = .operator op := by
    simp [operatorOrWord, hoperator, hop]
  have hall : ∀ op ∈ Operator.all, op.spelling.toList.head? = some '/' →
      op = .slash ∨ op = .slashAssign := by decide +kernel
  rw [hpiece]
  exact (hall op op.mem_all hstarts).imp (congrArg _) (congrArg _)

theorem piece_slash_isComment (nested : Scanner → List Token) (s : Scanner) (rest : List Char) :
    (piece nested s '/' rest).kind = .comment ↔ rest.head? = some '/' ∨ rest.head? = some '*' := by
  constructor
  case mp =>
    intro h
    by_contra hnone
    obtain ⟨hslash, hstar⟩ := not_or.mp hnone
    cases hregex : if s.regexAllowed then Lexeme.regex? ('/' :: s.behind) rest else none
    case some => simp [piece, hslash, hstar, isLineBreak, isBlank, hregex] at h
    case none =>
      have hkind := operatorOrWord_slash rest
      simp [piece, hslash, hstar, isLineBreak, isBlank, hregex] at h
      rcases hkind with hk | hk <;> simp [hk] at h
  case mpr => rintro (h | h) <;> simp [piece, h]

-- If it can be closed, a slash that opens no comment is what the scanner allows.
theorem piece_slash (nested : Scanner → List Token) {rest : List Char}
    (hcomment : (piece nested s '/' rest).kind ≠ .comment)
    (hclosed : (Lexeme.regex? ('/' :: s.behind) rest).isSome) :
    ((piece nested s '/' rest).kind = .regex ↔ s.regexAllowed) ∧
      ((piece nested s '/' rest).kind = .regex ∨ (piece nested s '/' rest).kind = .operator .slash ∨
        (piece nested s '/' rest).kind = .operator .slashAssign) := by
  obtain ⟨hslash, hstar⟩ := not_or.mp (mt (piece_slash_isComment nested s rest).mpr hcomment)
  obtain ⟨text, htext⟩ := Option.isSome_iff_exists.mp hclosed
  cases hallowed : s.regexAllowed
  case true => simp [piece, hslash, hstar, isLineBreak, isBlank, hallowed, htext]
  case false =>
    have hpiece : piece nested s '/' rest = operatorOrWord '/' rest := by
      simp [piece, hslash, hstar, isLineBreak, isBlank, hallowed]
    have hkind := operatorOrWord_slash rest
    rw [hpiece]
    refine ⟨⟨fun h => ?_, fun h => absurd h Bool.false_ne_true⟩, .inr hkind⟩
    rcases hkind with hk | hk <;> simp [hk] at h

end Scanner

namespace Token

theorem placeTokens_eq_map (table : LineTable) (ts : List Token) :
    placeTokens table ts = ts.map (·.place table) := by
  induction ts
  case nil => rfl
  case cons ih => rw [placeTokens, ih, List.map_cons]

theorem noteAll_placed (s : Scanner) (table : LineTable) (ts : List Token) :
    s.noteAll (ts.map (·.place table)) = s.noteAll ts := by
  simp [Scanner.noteAll, List.foldl_map]

-- Apart from the one that ends the input, the tokens of a source are those of the scanner in their places.
theorem tokens_of_ofSource {source : String} {ts us : List Token} (h : ofSource source true = ts ++ us)
    (hne : us ≠ []) : ∃ ts' us', (Scanner.ofSource source true).tokens = ts' ++ us' ∧
      ts = ts'.map (·.place (.ofSource source)) ∧
      us = us'.map (·.place (.ofSource source)) ++ [(endOfInput source.utf8ByteSize).place (.ofSource source)] := by
  obtain ⟨us, ending, rfl⟩ := us.eq_nil_or_concat'.resolve_left hne
  rw [ofSource, scan, fillPositions, placeTokens_append, ← List.append_assoc] at h
  obtain ⟨h, hending⟩ := List.append_inj' h rfl
  rw [placeTokens_eq_map] at h
  obtain ⟨ts', us', htokens, rfl, rfl⟩ := List.map_eq_append_iff.mp h
  exact ⟨ts', us', htokens, rfl, by rw [← hending]; rfl⟩

-- Where a token of a source was read, and what the scanner remembered by then.
theorem scanned_of_ofSource {source : String} {ts us : List Token} {t : Token}
    (h : ofSource source true = ts ++ t :: us) (ht : t.span.start < source.utf8ByteSize) :
    ∃ behind ahead, source.toList = behind.reverse ++ ahead ∧ byteWidth behind = t.span.start ∧
      t.kind = ((((Scanner.ofSource source true).noteAll ts).goTo behind ahead t.span.start).scan
        Scanner.tokens).1.kind := by
  obtain ⟨ts, us', htokens, rfl, hus⟩ := tokens_of_ofSource h (List.cons_ne_nil t us)
  obtain ⟨t, us, rfl, rfl⟩ : ∃ t' us, us' = t' :: us ∧ t = t'.place (.ofSource source) := by
    rcases us' with _ | ⟨t', us'⟩
    · rw [(List.cons.inj hus).1, place_span] at ht
      exact absurd ht (Nat.lt_irrefl _)
    · exact ⟨t', us', rfl, (List.cons.inj hus).1⟩
  have hw : (Scanner.ofSource source true).Within source.toList source.utf8ByteSize :=
    ⟨List.prefix_rfl, rfl, by simp [Scanner.ofSource, byteWidth_toList]⟩
  obtain ⟨behind, ahead, offset, hs, htokens⟩ := Scanner.tokens_after rfl hw htokens
  obtain ⟨ha, hscan, -⟩ := Scanner.scan_of_tokens (by
    rw [Scanner.goTo_keepTrivia, Scanner.noteAll_keepTrivia]
    rfl) htokens
  obtain rfl : t.span.start = offset := by
    obtain ⟨c, rest, ha⟩ := List.exists_cons_of_ne_nil ha
    rw [← hscan, Scanner.scan, ha]
    rfl
  refine ⟨behind, ahead, ?_, ?_, ?_⟩
  · refine (eq_of_prefix_of_byteWidth_eq hs.text List.prefix_rfl ?_).symm
    rw [byteWidth_append, byteWidth_reverse, hs.width, hs.stop, byteWidth_toList]
  · rw [place_span, hs.width]
  · rw [noteAll_placed, place_kind, place_span, hscan]

-- Behind a closing parenthesis, with nothing but trivia in between, a slash that could be a regular
-- expression is one exactly where the parenthesis closes a head or a line break stands between the two.
-- Otherwise it divides.
theorem ofSource_slash {source : String} {before gap after : List Token} {close slash : Token}
    {behind body more : List Char}
    (h : ofSource source true = before ++ close :: gap ++ slash :: after)
    (hclose : close.kind = .operator .rightParen) (hgap : ∀ t ∈ gap, t.isTrivia)
    (hslash : slash.kind ≠ .comment) (htext : source.toList = behind ++ '/' :: body ++ '/' :: more)
    (hstart : slash.span.start = byteWidth behind) (hline : ∀ c ∈ body, Character.isLineBreak c = false)
    (hescaped : Lexeme.isEscaped body.reverse = false) :
    (slash.kind = .regex ↔ AwaitsHead before ∨ ∃ t ∈ gap, t.kind = .lineBreak) ∧
      (slash.kind = .regex ∨ slash.kind = .operator .slash ∨ slash.kind = .operator .slashAssign) := by
  have hinside : slash.span.start < source.utf8ByteSize := by
    rw [hstart, ← byteWidth_toList, htext]
    simp
    have : ('/' : Char).utf8Size = 1 := by decide
    omega
  obtain ⟨behind', ahead, hsource, hwidth, hkind⟩ := scanned_of_ofSource h hinside
  have hbehind : behind'.reverse = behind :=
    eq_of_prefix_of_byteWidth_eq (List.prefix_append _ ahead) ⟨'/' :: body ++ '/' :: more, by
      rw [← hsource, htext, List.append_assoc]⟩ (by rw [byteWidth_reverse, hwidth, hstart])
  have hahead : ahead = '/' :: (body ++ '/' :: more) := by
    rw [hsource, hbehind, List.append_assoc] at htext
    exact List.append_cancel_left htext
  rw [hahead] at hkind
  generalize hs : ((Scanner.ofSource source true).noteAll (before ++ close :: gap)).goTo behind'
    ('/' :: (body ++ '/' :: more)) slash.span.start = s at hkind
  have hallowed : s.regexAllowed ↔ AwaitsHead before ∨ ∃ t ∈ gap, t.kind = .lineBreak := by
    rw [← Scanner.headD_noteAll (s := .ofSource source true) rfl rfl before, ← hs,
      Scanner.goTo_regexAllowed, ← List.singleton_append, ← List.append_assoc, Scanner.noteAll_append,
      Scanner.noteAll_regexAllowed hgap, Scanner.noteAll_concat, hclose]
    rfl
  have hpiece : slash.kind = (s.piece Scanner.tokens '/' (body ++ '/' :: more)).kind := by
    have ha : s.ahead = '/' :: (body ++ '/' :: more) := by rw [← hs, Scanner.goTo_ahead]
    rw [hkind, Scanner.scan, ha]
  have hclosed : (Lexeme.regex? ('/' :: s.behind) (body ++ '/' :: more)).isSome :=
    Scanner.regex?_isSome hline ((Scanner.isEscaped_append_cons (by decide) _ _).trans hescaped)
  obtain ⟨hiff, hor⟩ := Scanner.piece_slash Scanner.tokens (hpiece ▸ hslash) hclosed
  rw [hpiece]
  exact ⟨hiff.trans hallowed, hor⟩

theorem eq_append_cons_of_getElem? {ts : List Token} {i : Nat} {t : Token} (h : ts[i]? = some t) :
    ts = ts.take i ++ t :: ts.drop (i + 1) := by
  obtain ⟨hi, rfl⟩ := List.getElem?_eq_some_iff.mp h
  simp

-- The parenthesis closes the head, not the call in it.
theorem ofSource_slash_head : ∃ before close gap slash after,
    ofSource "while (a(b)) /* c */ /d/.e" true = before ++ close :: gap ++ slash :: after ∧
      slash.value = "/d/" ∧ slash.kind = .regex ∧ AwaitsHead before := by
  have hslash : (ofSource "while (a(b)) /* c */ /d/.e" true)[11]?.map (fun t => (t.kind, t.span.start, t.value)) =
      some (.regex, 21, "/d/") := by decide +kernel
  have hclose : ((ofSource "while (a(b)) /* c */ /d/.e" true).take 11)[7]?.map (·.kind) =
      some (.operator .rightParen) := by decide +kernel
  have hgap : ∀ t ∈ ((ofSource "while (a(b)) /* c */ /d/.e" true).take 11).drop 8, t.isTrivia ∧ t.kind ≠ .lineBreak := by
    decide +kernel
  obtain ⟨slash, hs, hslash⟩ := Option.map_eq_some_iff.mp hslash
  obtain ⟨close, hc, hclose⟩ := Option.map_eq_some_iff.mp hclose
  obtain ⟨hkind, hstart, hvalue⟩ : slash.kind = .regex ∧ slash.span.start = 21 ∧ slash.value = "/d/" := by
    simpa using hslash
  have hsplit := eq_append_cons_of_getElem? hs
  rw [eq_append_cons_of_getElem? hc] at hsplit
  have htext : "while (a(b)) /* c */ /d/.e".toList =
      "while (a(b)) /* c */ ".toList ++ '/' :: ['d'] ++ '/' :: ['.', 'e'] := by decide
  have h := ofSource_slash hsplit hclose (fun t ht => (hgap t ht).1) (by simp [hkind]) htext
    (hstart.trans (by decide)) (by decide) (by decide)
  have hhead := (h.left.mp hkind).resolve_right fun ⟨t, ht, hbreak⟩ => (hgap t ht).2 hbreak
  exact ⟨_, _, _, _, _, hsplit, hvalue, hkind, hhead⟩

-- The line break is a token in front of the parenthesis, so the slash divides.
theorem ofSource_slash_broken :
    (ofSource "if\n(x)/b/.test(y)" true).map (·.kind) =
      [.keyword .ifWord, .lineBreak, .operator .leftParen, .identifier, .operator .rightParen,
        .operator .slash, .identifier, .operator .slash, .operator .dot, .identifier,
        .operator .leftParen, .identifier, .operator .rightParen, .endOfInput] := by
  decide +kernel

end Token
end ScriptTree
