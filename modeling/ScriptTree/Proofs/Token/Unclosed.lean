import ScriptTree.Parse
import ScriptTree.Proofs.Parse.Parts
import ScriptTree.Proofs.Parse.Soundness
import ScriptTree.Proofs.Token.Rescan

/-!
Text that is not closed. The scanner takes it as far as it goes, and the parser does not look at how the
text of a literal ends. So a literal of a script may lack its closing delimiter, but only where the line
or the source ends behind it.
-/

namespace ScriptTree

open Character

namespace Lexeme

-- A string that is not closed ends in front of a line break or with the text.
theorem quoted_closes (quote : Char) {behind : List Char} (hb : ∃ c ∈ behind, c ≠ '\\')
    (more text : List Char) :
    closesQuoted quote behind (quoted quote (behind ++ more) text) ∨
      ∃ rest, text = quoted quote (behind ++ more) text ++ rest ∧ ∀ c ∈ rest.head?, isLineBreak c := by
  induction text generalizing behind
  case nil => exact .inr ⟨[], rfl, by simp⟩
  case cons c text ih =>
    rw [quoted, isEscaped_append hb]
    split
    case isTrue hbreak => exact .inr ⟨c :: text, rfl, by simpa using hbreak⟩
    case isFalse hbreak =>
      split
      case isTrue hclose => exact .inl (by simp [closesQuoted, hbreak, hclose])
      case isFalse hclose =>
        obtain ⟨d, hd, hne⟩ := hb
        have hb : ∃ d ∈ c :: behind, d ≠ '\\' := ⟨d, .tail _ hd, hne⟩
        refine (ih hb).imp (fun h => ?_) fun h => ?_
        · rw [closesQuoted, if_neg hbreak, if_neg hclose]
          exact h
        · obtain ⟨rest, ht, hr⟩ := h
          exact ⟨rest, congrArg (c :: ·) ht, hr⟩

-- Does the text of a block comment, from after its opening mark on, end with the closing one?
def closesComment (text : List Char) : Bool :=
  ['/', '*'].isPrefixOf text.reverse

theorem blockComment_closes (text : List Char) :
    (∃ before, blockComment text = before ++ ['*', '/']) ∨ blockComment text = text := by
  induction text using blockComment.induct
  case case1 => exact .inr rfl
  case case2 => exact .inl ⟨[], rfl⟩
  case case3 c text h ih =>
    rw [blockComment.eq_3 c text h]
    refine ih.imp (fun h => ?_) fun h => congrArg (c :: ·) h
    obtain ⟨before, hb⟩ := h
    exact ⟨c :: before, congrArg (c :: ·) hb⟩

end Lexeme

namespace Scanner

theorem head?_template (nested : Scanner → List Token) (keepTrivia inside : Bool)
    (behind : List Char) (offset : Nat) (text : List Char) :
    (template nested keepTrivia inside behind offset text).1.head? = text.head? := by
  fun_cases template nested keepTrivia inside behind offset text <;> rfl

-- A template that is not closed runs to the end of the text.
theorem template_closes (nested : Scanner → List Token) (keepTrivia inside : Bool)
    {behind : List Char} (hb : ∃ c ∈ behind, c ≠ '\\') (more : List Char) (offset : Nat)
    (text : List Char) :
    closesTemplate inside behind (template nested keepTrivia inside (behind ++ more) offset text).1 ∨
      (template nested keepTrivia inside (behind ++ more) offset text).1 = text := by
  induction text generalizing inside behind offset
  case nil => exact .inr (by simp [template])
  case cons c text ih =>
    have ih inside (offset : Nat) := ih inside (show ∃ d ∈ c :: behind, d ≠ '\\' by grind) offset
    cases inside
    case true =>
      rw [template]
      exact (ih _ _).imp id fun h => congrArg (c :: ·) h
    case false =>
      rw [template, Lexeme.isEscaped_append hb]
      split
      case isTrue hclose => exact .inl (by simp [closesTemplate, hclose])
      case isFalse hclose =>
        split
        case isTrue hopen =>
          refine (ih true _).imp (fun h => ?_) fun h => congrArg (c :: ·) h
          rw [closesTemplate, if_neg hclose, head?_template, hopen]
          exact h
        case isFalse hopen =>
          refine (ih false _).imp (fun h => ?_) fun h => congrArg (c :: ·) h
          rw [closesTemplate, if_neg hclose, head?_template, Bool.eq_false_iff.mpr hopen]
          exact h

end Scanner

-- Does the text of a token end with the delimiter that closes it? Only strings, templates and block
-- comments have one.
def TokenKind.closes (kind : TokenKind) (marks : Marks) (text : List Char) : Bool :=
  match kind with
  | string => (if marks.template then LiteralKind.template else .string).closes (String.ofList text)
  | comment => !marks.multiline || Lexeme.closesComment (text.drop 2)
  | _ => true

namespace Scanner

theorem operatorOrWord_closes (c : Char) (rest : List Char) :
    (operatorOrWord c rest).kind.closes (operatorOrWord c rest).marks (operatorOrWord c rest).text := by
  fun_cases operatorOrWord c rest
  case case1 | case2 => rfl
  case case3 =>
    unfold word
    simp only
    split <;> rfl

-- What is not closed is all there is, or at least all of its line if it is a string.
theorem piece_closes (nested : Scanner → List Token) (s : Scanner) (c : Char) (rest : List Char) :
    (piece nested s c rest).kind.closes (piece nested s c rest).marks (piece nested s c rest).text ∨
      ∃ after, c :: rest = (piece nested s c rest).text ++ after ∧ ∀ d ∈ after.head?, isLineBreak d ∧
        (piece nested s c rest).kind = .string ∧ (piece nested s c rest).marks.template = false := by
  fun_cases piece nested s c rest
  case case1 | case3 | case4 | case7 => exact .inl rfl
  case case8 => exact .inl (operatorOrWord_closes c rest)
  case case2 h =>
    obtain ⟨hslash, hstar⟩ := Bool.and_eq_true_iff.mp h
    obtain rfl := beq_iff_eq.mp hslash
    obtain ⟨rest, rfl⟩ := List.head?_eq_some_iff.mp (beq_iff_eq.mp hstar)
    refine (Lexeme.blockComment_closes rest).imp (fun h => ?_) fun h => ⟨[], ?_, by simp⟩
    · obtain ⟨before, hb⟩ := h
      simp [TokenKind.closes, hb, Lexeme.closesComment]
    · simp [h]
  case case5 hmark text embeddings ht =>
    obtain rfl := beq_iff_eq.mp hmark
    have h := template_closes nested s.keepTrivia false ⟨'\x60', List.mem_singleton_self _, by decide⟩
      s.behind (s.offset + 1) rest
    rw [List.singleton_append, ht] at h
    refine h.imp (fun h => ?_) fun h => ⟨[], by simp_all, by simp⟩
    simpa [TokenKind.closes, LiteralKind.closes] using h
  case case6 hquote =>
    have hne : c ≠ '\\' := by
      rintro rfl
      simp at hquote
    have h := Lexeme.quoted_closes c ⟨c, List.mem_singleton_self c, hne⟩ s.behind rest
    refine h.imp (fun h => ?_) fun h => ?_
    · simpa [TokenKind.closes, LiteralKind.closes] using h
    · obtain ⟨after, hrest, hafter⟩ := h
      exact ⟨after, congrArg (c :: ·) hrest, fun d hd => ⟨hafter d hd, rfl, rfl⟩⟩

end Scanner

namespace Token

def isClosed (t : Token) : Bool :=
  t.kind.closes t.marks t.value.toList

-- The token goes on to the end of the source, or to the end of its line if it is a string.
def IsCutOff (source : String) (t : Token) : Prop :=
  ∃ before after, source.toList = before ++ t.value.toList ++ after ∧
    t.span.start = byteWidth before ∧
    ∀ c ∈ after.head?, isLineBreak c ∧ t.kind = .string ∧ t.marks.template = false

theorem isClosed_of_mem_tokensWithin {source : String} {limit : Nat} {s : Scanner} {t : Token}
    (hk : s.keepTrivia) (hs : source.toList = s.behind.reverse ++ s.ahead)
    (hw : byteWidth s.behind = s.offset) (h : t ∈ s.tokensWithin limit) :
    t.isClosed ∨ t.IsCutOff source := by
  induction limit generalizing s
  case zero => cases h
  case succ limit ih =>
    rw [Scanner.tokensWithin, Scanner.nextWithin_of_keepTrivia hk] at h
    rcases ha : s.ahead with _ | ⟨c, rest⟩
    case nil => simp [Scanner.scan, ha, endOfInput] at h
    case cons =>
      simp only [Scanner.scan, ha] at h
      obtain ⟨after, hafter⟩ := (Scanner.piece_fits (Scanner.tokensWithin limit) s c rest).begins
      have hcloses := Scanner.piece_closes (Scanner.tokensWithin limit) s c rest
      generalize Scanner.piece (Scanner.tokensWithin limit) s c rest = p at *
      split at h
      case isTrue => cases h
      case isFalse =>
        rcases List.mem_cons.mp h with rfl | h
        · refine hcloses.imp (fun h => ?_) fun h => ?_
          · simpa [isClosed] using h
          · obtain ⟨after, hp, hafter⟩ := h
            refine ⟨s.behind.reverse, after, ?_, by simp [hw], hafter⟩
            simp [hs, ha, hp]
        · refine ih (by simpa [Scanner.advance] using hk) ?_ ?_ h
          · simp [Scanner.advance, hs, ha, ← hafter]
          · simp [Scanner.advance, hw, Nat.add_comm]

-- What the scanner takes as a token is closed, or there was nothing left to close it.
theorem isClosed_or_isCutOff {source : String} {t : Token} (h : t ∈ ofSource source true) :
    t.isClosed ∨ t.IsCutOff source := by
  obtain ⟨t', ht, rfl⟩ := mem_placeTokens h
  simp only [isClosed, IsCutOff, place_kind, place_value, place_marks, place_span]
  rcases List.mem_append.mp ht with ht | ht
  · exact isClosed_of_mem_tokensWithin (s := .ofSource source true) rfl rfl rfl ht
  · rw [List.mem_singleton.mp ht]
    exact .inl rfl

end Token

-- The kind and the text of a literal.
def Node.literal? (n : Node) : Option (LiteralKind × String) :=
  match n.form with
  | .literal kind raw => some (kind, raw)
  | _ => none

theorem Fills.isLiteral {L : Token → Prop} {role : Role} {n : Node} {kind : LiteralKind} {raw : String}
    (h : Fills L role n) (hn : n.literal? = some (kind, raw)) : Role.IsLiteral L kind raw := by
  induction h
  case identifier ih | target ih | declarationStatement ih | blockStatement ih
      | loopDeclaration ih | loopExpression ih | loopTarget ih => exact ih hn
  case literal h | keyLiteral h =>
    cases hn
    exact h
  all_goals cases hn

theorem Token.isClosed_of_literalKind? {t : Token} {kind : LiteralKind}
    (hk : Grammar.literalKind? t = some kind) (h : t.isClosed) : kind.closes t.value := by
  unfold Grammar.literalKind? at hk
  split at hk <;> cases hk
  case h_1 hstring => simpa [isClosed, TokenKind.closes, hstring] using h
  all_goals simp [LiteralKind.closes]

-- The parser does not look at how a literal ends. So a literal of a script is closed, or it was cut off
-- where its line or the source ends.
theorem parseSource_closes {source : String} {tree n : Node} {l : Location} {kind : LiteralKind}
    {raw : String} (h : parseSource source = .ok tree) (hn : tree.at? l = some n)
    (hl : n.literal? = some (kind, raw)) :
    ∃ t ∈ Token.ofSource source true, t.value = raw ∧ Grammar.literalKind? t = some kind ∧
      (kind.closes raw ∨ t.IsCutOff source) := by
  obtain ⟨role, hfills⟩ := (fills_of_parse h).at? hn
  obtain ⟨t, ht, hk, rfl⟩ := hfills.isLiteral hl
  refine ⟨t, ht, rfl, hk, ?_⟩
  exact (Token.isClosed_or_isCutOff ht).imp_left (Token.isClosed_of_literalKind? hk)

-- A string that ends with its line is taken as it is.
theorem parseSource_closes_line :
    ∃ tree n, parseSource "x = \"a\ny" = .ok tree ∧
      tree.at? [⟨"body", some 0⟩, ⟨"expression", none⟩, ⟨"right", none⟩] = some n ∧
      n.literal? = some (.string, "\"a") ∧ LiteralKind.string.closes "\"a" = false ∧
      ∃ t ∈ Token.ofSource "x = \"a\ny" true, t.value = "\"a" ∧ t.IsCutOff "x = \"a\ny" := by
  have h : ((parseSource "x = \"a\ny").toOption.bind fun tree =>
      (tree.at? [⟨"body", some 0⟩, ⟨"expression", none⟩, ⟨"right", none⟩]).bind (·.literal?)) =
        some (.string, "\"a") := by
    decide +kernel
  have hcloses : LiteralKind.string.closes "\"a" = false := by decide
  rcases htree : parseSource "x = \"a\ny" with _ | tree <;> rw [htree] at h
  case error => cases h
  case ok =>
    obtain ⟨n, hn, hl⟩ := Option.bind_eq_some_iff.mp (show (tree.at? _).bind _ = _ from h)
    obtain ⟨t, ht, hv, _, hcut⟩ := parseSource_closes htree hn hl
    rw [hcloses] at hcut
    exact ⟨tree, n, rfl, hn, hl, hcloses, t, ht, hv, hcut.resolve_left (by simp)⟩

-- None of them is closed: a string, a template and a comment at the end of the source.
theorem parseSource_unclosed :
    (parseSource "x = \"a").isOk ∧ LiteralKind.string.closes "\"a" = false ∧
      (parseSource "x = \x60a").isOk ∧ LiteralKind.template.closes "\x60a" = false ∧
      (parseSource "x /* a").isOk ∧ TokenKind.comment.closes { multiline := true } "/* a".toList = false := by
  refine ⟨?_, ?_, ?_, ?_, ?_, ?_⟩ <;> decide +kernel

end ScriptTree
