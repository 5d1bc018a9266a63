import ScriptTree.Proofs.Parse.Signs
import ScriptTree.Proofs.Parse.Termination

/-!
What of the trivia in a stream the parser sees: line breaks, and comments with a line feed. The blanks
between them can be left out, and a line break can stand for such a comment wherever a statement could
end at one before.
-/

namespace ScriptTree

namespace Token

-- A comment that goes on behind a line feed.
def isBrokenComment (t : Token) : Bool :=
  t.kind == .comment && t.value.toList.contains '\n'

-- Blanks, and comments without a line feed.
def isBlank (t : Token) : Bool :=
  t.kind == .blank || (t.kind == .comment && !t.value.toList.contains '\n')

-- Behind such a token a statement may end anywhere.
def isTerminator (t : Token) : Bool :=
  t.kind == .lineBreak || t.kind == .operator .semicolon

theorem isTrivia_of_isBlank {t : Token} (h : t.isBlank) : t.isTrivia := by
  simp only [isBlank, Bool.or_eq_true, Bool.and_eq_true, beq_iff_eq] at h
  rcases h with hk | ⟨hk, _⟩ <;> simp [isTrivia, hk, TokenKind.isTrivia]

theorem breaksLine_of_isBlank {t : Token} (h : t.isBlank) : t.breaksLine = false := by
  simp only [isBlank, Bool.or_eq_true, Bool.and_eq_true, beq_iff_eq] at h
  rcases h with hk | ⟨hk, hv⟩ <;> simp_all [breaksLine]

theorem isTerminator_of_isBlank {t : Token} (h : t.isBlank) : t.isTerminator = false := by
  simp only [isBlank, Bool.or_eq_true, Bool.and_eq_true, beq_iff_eq] at h
  rcases h with hk | ⟨hk, _⟩ <;> simp [isTerminator, hk]

theorem breaksLine_of_isBrokenComment {t : Token} (h : t.isBrokenComment) : t.breaksLine := by
  rw [breaksLine, ← isBrokenComment, h, Bool.or_true]

theorem isTrivia_of_isBrokenComment {t : Token} (h : t.isBrokenComment) : t.isTrivia := by
  simp only [isBrokenComment, Bool.and_eq_true, beq_iff_eq] at h
  simp [isTrivia, h.left, TokenKind.isTrivia]

theorem breaksLine_of_lineBreak {t : Token} (h : t.kind = .lineBreak) : t.breaksLine := by
  simp [breaksLine, h]

theorem isTrivia_of_lineBreak {t : Token} (h : t.kind = .lineBreak) : t.isTrivia := by
  simp [isTrivia, h, TokenKind.isTrivia]

-- The second stream is the first one where blanks are inserted, and where line breaks stand in place of
-- comments that go on behind a line feed. If `passed` holds, a statement could end before.
inductive Respaced : (passed : Bool) → List Token → List Token → Prop where
  | nil {passed} : Respaced passed [] []
  | same {passed t tokens tokens'} : Respaced (passed || t.isTerminator) tokens tokens' →
    Respaced passed (t :: tokens) (t :: tokens')
  | blank {passed u tokens tokens'} : u.isBlank → Respaced passed tokens tokens' →
    Respaced passed tokens (u :: tokens')
  | line {t u tokens tokens'} : t.isBrokenComment → u.kind = .lineBreak →
    Respaced true tokens tokens' → Respaced true (t :: tokens) (u :: tokens')

namespace Respaced

variable {passed : Bool} {t : Token} {tokens tokens' : List Token}

theorem length_le (h : Respaced passed tokens tokens') : tokens.length ≤ tokens'.length := by
  induction h
  case nil => exact Nat.le_refl _
  case same ih => exact Nat.succ_le_succ ih
  case blank ih => exact Nat.le_succ_of_le ih
  case line ih => exact Nat.succ_le_succ ih

theorem find? (h : Respaced passed tokens tokens') :
    tokens'.find? (!·.isTrivia) = tokens.find? (!·.isTrivia) := by
  induction h
  case nil => rfl
  case same ih => simp [List.find?_cons, ih]
  case blank hu _ ih => simp [isTrivia_of_isBlank hu, ih]
  case line ht hu _ ih => simp [isTrivia_of_isBrokenComment ht, isTrivia_of_lineBreak hu, ih]

-- Where the second stream starts with no trivia, the first one starts with the same token.
theorem of_head? (h : Respaced passed tokens tokens') (hh : ∀ t ∈ tokens'.head?, ¬t.isTrivia) :
    tokens = [] ∧ tokens' = [] ∨ ∃ t rest rest', tokens = t :: rest ∧ tokens' = t :: rest' ∧
      Respaced (passed || t.isTerminator) rest rest' := by
  cases h
  case nil => exact .inl ⟨rfl, rfl⟩
  case same h => exact .inr ⟨_, _, _, rfl, rfl, h⟩
  case blank hu _ => exact absurd (isTrivia_of_isBlank hu) (hh _ rfl)
  case line hu _ => exact absurd (isTrivia_of_lineBreak hu) (hh _ rfl)

-- Blanks are left out.
theorem of_filter (hsub : tokens'.Sublist tokens)
    (hkeep : tokens'.filter (!·.isBlank) = tokens.filter (!·.isBlank)) :
    Respaced passed tokens' tokens := by
  induction hsub generalizing passed
  case slnil => exact .nil
  case cons tokens' tokens t hsub ih =>
    by_cases ht : t.isBlank
    case pos => exact .blank ht (ih (by simpa [ht] using hkeep))
    case neg =>
      have hle := (hsub.filter (!·.isBlank)).length_le
      rw [hkeep, List.filter_cons_of_pos (by simpa using ht)] at hle
      exact absurd hle (Nat.not_succ_le_self _)
  case cons_cons t _ ih =>
    refine .same (ih ?_)
    by_cases ht : t.isBlank <;> simpa [ht] using hkeep

end Respaced

-- The token, or a line break for it if it is a comment that goes on behind a line feed.
def IsBroken (t u : Token) : Prop :=
  u = t ∨ t.isBrokenComment ∧ u.kind = .lineBreak

-- A line break of the same text, in place of such a comment.
def breakComment (t : Token) : Token :=
  if t.isBrokenComment then { t with kind := .lineBreak } else t

theorem forall₂_breakComment (tokens : List Token) :
    List.Forall₂ IsBroken tokens (tokens.map breakComment) := by
  rw [List.forall₂_map_right_iff, List.forall₂_same]
  intro t _
  unfold breakComment
  split
  case isTrue h => exact .inr ⟨h, rfl⟩
  case isFalse => exact .inl rfl

namespace Respaced

variable {passed : Bool} {before tokens tokens' : List Token}

theorem of_forall₂ (h : List.Forall₂ IsBroken tokens tokens') : Respaced true tokens tokens' := by
  induction h
  case nil => exact .nil
  case cons ht _ ih =>
    rcases ht with rfl | ⟨ht, hu⟩
    · exact .same ih
    · exact .line ht hu ih

-- Where a statement can end, the tokens before are the same.
theorem append (hpassed : passed || before.any isTerminator) (h : Respaced true tokens tokens') :
    Respaced passed (before ++ tokens) (before ++ tokens') := by
  induction before generalizing passed
  case nil => simpa [show passed = true by simpa using hpassed] using h
  case cons t before ih => exact .same (ih (by simpa [Bool.or_assoc] using hpassed))

end Respaced

end Token

namespace Cursor

open Token

-- What was passed, and what was passed where the stream is respaced, tells the rules the same; but if the
-- likeness is lenient, a statement may be able to end in the second stream only.
structure Recalls (lenient : Bool) (behind behind' : List Token) : Prop where
  breaksLine : (behind'.takeWhile Token.isTrivia).any Token.breaksLine =
    (behind.takeWhile Token.isTrivia).any Token.breaksLine
  terminator : behind.any isTerminator → behind'.any isTerminator
  strict     : lenient = false → behind'.any isTerminator → behind.any isTerminator

namespace Recalls

variable {lenient : Bool} {t u : Token} {behind behind' : List Token}

theorem refl (behind : List Token) : Recalls lenient behind behind :=
  ⟨rfl, id, fun _ => id⟩

theorem same (h : Recalls lenient behind behind') : Recalls lenient (t :: behind) (t :: behind') where
  breaksLine := by simp only [List.takeWhile_cons]; split <;> simp [h.breaksLine]
  terminator := by simpa using Or.imp_right (a := t.isTerminator) h.terminator
  strict hl  := by simpa using Or.imp_right (a := t.isTerminator) (h.strict hl)

theorem blank (hu : u.isBlank) (h : Recalls lenient behind behind') :
    Recalls lenient behind (u :: behind') where
  breaksLine := by simp [isTrivia_of_isBlank hu, breaksLine_of_isBlank hu, h.breaksLine]
  terminator hb := by simp [h.terminator hb]
  strict hl := by simpa [isTerminator_of_isBlank hu] using h.strict hl

theorem line (ht : t.isBrokenComment) (hu : u.kind = .lineBreak)
    (hp : lenient || behind.any isTerminator) : Recalls lenient (t :: behind) (u :: behind') where
  breaksLine := by
    simp [isTrivia_of_isBrokenComment ht, isTrivia_of_lineBreak hu, breaksLine_of_isBrokenComment ht,
      breaksLine_of_lineBreak hu]
  terminator _ := by simp [isTerminator, hu]
  strict hl _ := by simp_all

end Recalls

-- Cursors at the same place in a stream, and where that is respaced.
structure Alike (lenient : Bool) (c d : Cursor) : Prop where
  ending   : d.ending = c.ending
  lastStop : d.lastStop = c.lastStop
  ahead    : Respaced (lenient || c.behind.any isTerminator) c.ahead d.ahead
  behind   : Recalls lenient c.behind d.behind
  rests    : ∀ t ∈ d.ahead.head?, ¬t.isTrivia

theorem any_terminator_cons {lenient : Bool} {t : Token} {behind : List Token} :
    (lenient || behind.any isTerminator || t.isTerminator) =
      (lenient || (t :: behind).any isTerminator) := by
  rw [List.any_cons, Bool.or_comm t.isTerminator, Bool.or_assoc]

-- Both cursors pass over the same tokens, and over trivia that make no difference.
theorem passOver_alike {consumes : TokenKind → Bool} (hconsumes : ∀ k, consumes k → ¬k.isTrivia)
    {lenient passed : Bool} {behind behind' ahead ahead' : List Token} {lastStop : Nat}
    {ending : Token} {implied implied' : List Nat} (h : Respaced passed ahead ahead')
    (hp : passed = (lenient || behind.any isTerminator)) (hb : Recalls lenient behind behind') :
    Alike lenient (passOver consumes behind lastStop ending implied ahead)
      (passOver consumes behind' lastStop ending implied' ahead') := by
  have trivia {t : Token} (ht : t.isTrivia) : ¬consumes t.kind := fun h => hconsumes _ h ht
  induction h generalizing behind behind' lastStop
  case nil => exact ⟨rfl, rfl, hp ▸ .nil, hb, nofun⟩
  case same t ahead ahead' h ih =>
    have hp' := hp ▸ any_terminator_cons (t := t)
    rw [passOver, passOver]
    split
    case isTrue => exact ih hp' hb.same
    split
    case isTrue => exact ih hp' hb.same
    case isFalse ht => exact ⟨rfl, rfl, hp ▸ .same h, hb, by simpa using ht⟩
  case blank hu _ ih =>
    have hu' := isTrivia_of_isBlank hu
    rw [passOver.eq_2 _ behind', if_neg (trivia hu'), if_pos hu']
    exact ih hp (hb.blank hu)
  case line t u _ _ ht hu _ ih =>
    have ht' := isTrivia_of_isBrokenComment ht
    have hu' := isTrivia_of_lineBreak hu
    rw [passOver, passOver, if_neg (trivia ht'), if_pos ht', if_neg (trivia hu'), if_pos hu']
    exact ih (by rw [← any_terminator_cons, ← hp, Bool.true_or]) (.line ht hu hp.symm)

namespace Alike

variable {lenient : Bool} {c d : Cursor}

theorem current (h : Alike lenient c d) : d.current = c.current := by
  rw [current_eq_head?, current_eq_head?, h.ending]
  rcases h.ahead.of_head? h.rests with ⟨hc, hd⟩ | ⟨t, _, _, hc, hd, _⟩ <;> rw [hc, hd]
  rfl

theorem following (h : Alike lenient c d) : d.following = c.following := by
  rw [Cursor.following, Cursor.following, h.ending]
  rcases h.ahead.of_head? h.rests with ⟨hc, hd⟩ | ⟨t, _, _, hc, hd, hrest⟩ <;> rw [hc, hd]
  rw [List.tail_cons, List.tail_cons, hrest.find?]

theorem advance (h : Alike lenient c d) : Alike lenient c.advance d.advance := by
  rcases h.ahead.of_head? h.rests with ⟨hc, hd⟩ | ⟨t, rest, rest', hc, hd, hrest⟩
  case inl =>
    simp only [Cursor.advance, hc, hd]
    exact h
  case inr =>
    by_cases hk : t.kind = .endOfInput
    case pos =>
      simp only [Cursor.advance, hc, hd, hk, beq_self_eq_true, if_true]
      exact h
    case neg =>
      rw [advance_of_ne hc hk, advance_of_ne hd hk, Cursor.skipTrivia, Cursor.skipTrivia, h.ending]
      exact passOver_alike (fun _ h => absurd h Bool.false_ne_true) hrest any_terminator_cons h.behind.same

theorem skipSemicolons (h : Alike lenient c d) : Alike lenient c.skipSemicolons d.skipSemicolons := by
  rw [Cursor.skipSemicolons, Cursor.skipSemicolons, h.ending, h.lastStop]
  exact passOver_alike (fun _ hk => (isSemicolon_ne hk).left) h.ahead rfl h.behind

end Alike

theorem ofTokens_alike {lenient : Bool} {tokens tokens' : List Token}
    (h : Respaced lenient tokens tokens') (hlast : tokens'.getLast? = tokens.getLast?) :
    Alike lenient (ofTokens tokens) (ofTokens tokens') := by
  have hending : endingOf tokens' = endingOf tokens := by rw [endingOf, hlast]; rfl
  rw [ofTokens, ofTokens, hending]
  exact passOver_alike (fun _ h => absurd h Bool.false_ne_true) h (Bool.or_false _).symm (.refl [])

-- Rules cannot tell that the stream is respaced.
def Likeness.respacing (lenient : Bool) : Likeness where
  IsStrict := lenient = false
  Holds := Alike lenient
  current := Alike.current
  following := Alike.following
  lastStop := Alike.lastStop
  isAfterLineBreak h := h.behind.breaksLine
  hasPassedTerminator h := h.behind.terminator
  strict hl h := h.behind.strict hl
  advance := Alike.advance
  skipSemicolons := Alike.skipSemicolons
  endStatement h := ⟨h.ending, h.lastStop, h.ahead, h.behind, h.rests⟩

end Cursor

section

open Token

variable {options : ParseOptions} {tokens tokens' : List Token} {t : Token} {lenient : Bool}

theorem statements_finishes_of_respaced (h : Respaced lenient tokens tokens') :
    Rule.Finishes (.respacing lenient)
      ((Grammar.ofDepth (sufficientDepth tokens)).statements { allowsReturn := options.allowsReturn })
      ((Grammar.ofDepth (sufficientDepth tokens')).statements { allowsReturn := options.allowsReturn })
      (.ofTokens tokens) fun _ _ => True :=
  statements_finishes_of_sufficientDepth options tokens
    (Nat.add_le_add_right (Nat.mul_le_mul_left 3 h.length_le) 3)

theorem parse_respaced_of_ok {tree : Node} (h : Respaced lenient tokens tokens')
    (hlast : tokens'.getLast? = tokens.getLast?) (htree : parse options tokens = .ok tree) :
    parse options tokens' = .ok tree := by
  cases hrun : parseStatements options tokens with
  | ok read =>
    obtain ⟨body, c⟩ := read
    have ⟨_, hrun', _⟩ := (statements_finishes_of_respaced h).run_ok (Cursor.ofTokens_rests tokens).ending
      (Cursor.ofTokens_alike h hlast) hrun
    rw [← htree, parse_of_parseStatements hrun, parse_of_parseStatements hrun', hlast]
  | error stop => cases stop <;> simp [parse, hrun] at htree

theorem parse_respaced (h : Respaced false tokens tokens')
    (hlast : tokens'.getLast? = tokens.getLast?) :
    parse options tokens' = parse options tokens := by
  cases hrun : parseStatements options tokens with
  | ok read =>
    have htree := parse_of_parseStatements hrun
    rw [htree, parse_respaced_of_ok h hlast htree]
  | error stop =>
    have hrun' : parseStatements options tokens' = _ :=
      (statements_finishes_of_respaced h).run_error (Cursor.ofTokens_rests tokens).ending
        (Cursor.ofTokens_alike h hlast) rfl hrun
    cases stop with
    | failed error => rw [parse, parse, hrun, hrun']
    | exhausted => exact absurd hrun (parseStatements_ne_exhausted options tokens)

theorem getLast?_of_sublist (ht : tokens.getLast? = some t) (hk : ¬t.isBlank)
    (hsub : tokens'.Sublist tokens)
    (hkeep : tokens'.filter (!·.isBlank) = tokens.filter (!·.isBlank)) :
    tokens'.getLast? = some t := by
  obtain ⟨before, rfl⟩ := List.getLast?_eq_some_iff.mp ht
  have hrev := hsub.reverse
  rw [List.reverse_concat] at hrev
  rcases List.sublist_cons_iff.mp hrev with hrev | ⟨rest, hrest, _⟩
  case inl =>
    have hle := ((List.reverse_sublist.mp hrev).filter (!·.isBlank)).length_le
    have hlast : ([t].filter (!·.isBlank)).length = 1 := by simp [hk]
    rw [hkeep, List.filter_append, List.length_append, hlast] at hle
    exact absurd hle (Nat.not_succ_le_self _)
  case inr => rw [List.getLast?_eq_head?_reverse, hrest, List.head?_cons]

theorem getLast?_of_forall₂ (ht : tokens.getLast? = some t) (hk : t.kind = .endOfInput)
    (h : List.Forall₂ IsBroken tokens tokens') : tokens'.getLast? = some t := by
  obtain ⟨before, rfl⟩ := List.getLast?_eq_some_iff.mp ht
  have hrev := List.rel_reverse h
  rw [List.reverse_concat, List.forall₂_cons_left_iff] at hrev
  obtain ⟨u, rest, hu, -, hrest⟩ := hrev
  rw [List.getLast?_eq_head?_reverse, hrest, List.head?_cons]
  rcases hu with rfl | ⟨ht, -⟩
  · rfl
  · simp [isBrokenComment, hk] at ht

-- Blanks, and comments in which no line feed stands, may be left out anywhere: the parser comes to the
-- same tree, spans included, or to the same error.
theorem parse_sublist (ht : tokens.getLast? = some t) (hk : t.kind = .endOfInput)
    (hsub : tokens'.Sublist tokens)
    (hkeep : tokens'.filter (!·.isBlank) = tokens.filter (!·.isBlank)) :
    parse options tokens' = parse options tokens := by
  have hlast : tokens'.getLast? = some t := getLast?_of_sublist ht (by simp [isBlank, hk]) hsub hkeep
  exact (parse_respaced (.of_filter hsub hkeep) (ht.trans hlast.symm)).symm

-- A loop over a variable, which a probe finds, and a line break that no blank may take along.
theorem parse_sublist_loop :
    let tokens := Token.ofSource "for ( var a /* \r */ in b ) c // d\n++ e" true
    let tokens' := tokens.filter fun t => !t.isBlank || t.span.start = 3
    tokens.length = 24 ∧ tokens'.length = 13 ∧ (parse {} tokens).toOption.isSome ∧
      parse {} tokens' = parse {} tokens := by
  intro tokens tokens'
  have hlast : tokens.getLast?.map (·.kind) = some .endOfInput := by decide +kernel
  have ⟨t, ht, hk⟩ := Option.map_eq_some_iff.mp hlast
  have hkeep : tokens'.filter (!·.isBlank) = tokens.filter (!·.isBlank) := by
    rw [List.filter_filter]
    exact List.filter_congr fun t _ => by cases t.isBlank <;> rfl
  exact ⟨by decide +kernel, by decide +kernel, by decide +kernel,
    parse_sublist ht hk List.filter_sublist hkeep⟩

-- A line break may stand in place of a comment that goes on behind a line feed: a stream that parses is
-- parsed to the same tree, and if a statement can end before the first such place, also the error stays.
theorem parse_brokenComments (ht : tokens.getLast? = some t) (hk : t.kind = .endOfInput)
    (h : List.Forall₂ IsBroken tokens tokens') :
    (∀ tree, parse options tokens = .ok tree → parse options tokens' = .ok tree) ∧
      ∀ before rest rest', tokens = before ++ rest → tokens' = before ++ rest' →
        before.any isTerminator → parse options tokens' = parse options tokens := by
  have hlast : tokens'.getLast? = tokens.getLast? := (getLast?_of_forall₂ ht hk h).trans ht.symm
  refine ⟨fun tree => parse_respaced_of_ok (.of_forall₂ h) hlast, ?_⟩
  rintro before rest rest' rfl rfl hbefore
  have hrest : List.Forall₂ IsBroken rest rest' := by simpa using List.forall₂_drop before.length h
  exact parse_respaced (.append (by simpa using hbefore) (.of_forall₂ hrest)) hlast

-- The comment ends the statement that returns, in the tree of both streams.
theorem parse_brokenComments_return :
    let before := Token.ofSource ";" false
    let rest := Token.ofSource "function f() \x7b return /*\n*/ x \x7d" true
    let tokens' := before ++ rest.map breakComment
    (parse {} (before ++ rest)).toOption.isSome ∧
      (∀ tree, parse {} (before ++ rest) = .ok tree → parse {} tokens' = .ok tree) ∧
        parse {} tokens' = parse {} (before ++ rest) := by
  intro before rest tokens'
  have hlast : (before ++ rest).getLast?.map (·.kind) = some .endOfInput := by decide +kernel
  have ⟨t, ht, hk⟩ := Option.map_eq_some_iff.mp hlast
  have hbroken : List.Forall₂ IsBroken (before ++ rest) tokens' :=
    List.rel_append (List.forall₂_same.mpr fun _ _ => .inl rfl) (forall₂_breakComment rest)
  exact ⟨by decide +kernel, (parse_brokenComments ht hk hbroken).left,
    (parse_brokenComments ht hk hbroken).right before rest _ rfl rfl (by decide +kernel)⟩

-- Where no statement can end before, the comment ends the operand, but not the statement.
theorem parse_brokenComments_fails :
    let tokens := Token.ofSource "function f()\x7breturn/*\n*/x\x7d" true
    List.Forall₂ IsBroken tokens (tokens.map breakComment) ∧
      tokens.getLast?.map (·.kind) = some .endOfInput ∧ (parse {} tokens).toOption.isNone ∧
        (parse {} (tokens.map breakComment)).toOption.isSome :=
  ⟨forall₂_breakComment _, by decide +kernel, by decide +kernel, by decide +kernel⟩

end

end ScriptTree
