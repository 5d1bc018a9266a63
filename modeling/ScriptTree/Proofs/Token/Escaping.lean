import ScriptTree.Proofs.Token.Moved
import ScriptTree.Proofs.Token.Tiling

/-!
Quoted text can be read from left to right with one bit in hand.

The readers of the scanner look back from each delimiter and count the backslashes in front of it. A reader
that only remembers whether the character before was a backslash, and one that was not escaped itself, stops
at the same places, and finds the same embedded expressions in a template. What keeps the two together is
that the bit is the parity of the backslashes passed last.
-/

namespace ScriptTree

open Character

namespace Lexeme

-- The bit behind a character.
def escapes (escaped : Bool) (c : Char) : Bool :=
  c == '\\' && !escaped

theorem isEscaped_reverse_append (text behind : List Char) :
    isEscaped (text.reverse ++ behind) = text.foldl escapes (isEscaped behind) := by
  induction text generalizing behind
  case nil => rfl
  case cons c text ih =>
    rw [List.reverse_cons, List.append_assoc, List.singleton_append, ih, isEscaped_cons, List.foldl_cons,
      escapes]

-- The mark that opens a quoted text is no backslash, so the bit is clear behind it.
theorem isEscaped_cons_of_ne {c : Char} (h : c ≠ '\\') (behind : List Char) :
    isEscaped (c :: behind) = false := by
  simp [isEscaped_cons, h]

end Lexeme

namespace Scanner

variable (nested : Scanner → List Token) (keepTrivia : Bool)

-- The text behind the first closing brace.
def afterBrace (text : List Char) : List Char :=
  text.drop (beforeBrace text ++ brace text).length

-- What is left behind an embedded expression is shorter. It opens with `c` and the first character of `rest`.
theorem afterBrace_length_lt (c : Char) (rest : List Char) :
    (afterBrace rest.tail).length < (c :: rest).length := by
  simp only [afterBrace, List.length_drop, List.length_tail, List.length_cons]
  omega

theorem afterBrace_cons {c : Char} (h : c ≠ '\x7d') (text : List Char) :
    afterBrace (c :: text) = afterBrace text := by
  simp [afterBrace, beforeBrace_cons h, brace_cons h]

-- Inside of an embedded expression the template goes on behind the first closing brace.
theorem template_inside (behind text : List Char) (offset : Nat) :
    template nested keepTrivia true behind offset text =
      let part := beforeBrace text ++ brace text
      let r := template nested keepTrivia false (part.reverse ++ behind) (offset + byteWidth part)
        (afterBrace text)
      (part ++ r.1, r.2) := by
  induction text generalizing behind offset
  case nil => simp [template, beforeBrace, brace, afterBrace]
  case cons c text ih =>
    by_cases hc : c = '\x7d'
    case pos => simp [hc, template, beforeBrace, brace, afterBrace]
    case neg =>
      rw [template, bne_iff_ne.mpr hc, ih]
      simp [beforeBrace_cons hc, brace_cons hc, afterBrace_cons hc, Nat.add_assoc]

-- Where an embedded expression opens, the template goes on behind it.
theorem template_opened {behind : List Char} (hb : Lexeme.isEscaped behind = false) (rest : List Char)
    (offset : Nat) :
    template nested keepTrivia false behind offset ('$' :: '\x7b' :: rest) =
      let part := '$' :: '\x7b' :: beforeBrace rest ++ brace rest
      let r := template nested keepTrivia false (part.reverse ++ behind) (offset + byteWidth part)
        (afterBrace rest)
      (part ++ r.1, embedding nested keepTrivia behind offset ('\x7b' :: rest) :: r.2) := by
  have hinside := template_inside nested keepTrivia ('\x7b' :: '$' :: behind) rest
  simp [template, hb, hinside, Nat.add_assoc]

end Scanner

-- A kind of quoted text: the delimiter that closes it, whether it ends in front of a line break, and whether
-- expressions can be embedded in it.
structure Quotation where
  closing : Char
  endsAtBreak : Bool
  embeds : Bool

namespace Quotation

-- Strings and regular expressions end on their line.
def line (closing : Char) : Quotation where
  closing
  endsAtBreak := true
  embeds := false

def template : Quotation where
  closing := '\x60'
  endsAtBreak := false
  embeds := true

-- An embedded expression: what was read before its dollar sign, what stands between the braces, and the
-- closing brace, if there is one.
structure Opening where
  before : List Char
  body : List Char
  closing : List Char

def Opening.after (passed : List Char) (o : Opening) : Opening :=
  { o with before := passed ++ o.before }

-- How far a quoted text goes, its closing delimiter included.
structure Extent where
  text : List Char := []
  isClosed : Bool := false
  openings : List Opening := []

-- The same with something that was read before.
def Extent.after (passed : List Char) (e : Extent) : Extent :=
  { e with text := passed ++ e.text, openings := e.openings.map (·.after passed) }

-- The same with an embedded expression that was read before.
def Extent.opened (body closing : List Char) (e : Extent) : Extent :=
  let e := e.after ('$' :: '\x7b' :: body ++ closing)
  { e with openings := ⟨[], body, closing⟩ :: e.openings }

-- Reads on in a quoted text. The bit says whether the next character is escaped; nothing else is known of what
-- stands before. An embedded expression is passed in one step, through the first closing brace.
def read (q : Quotation) (escaped : Bool) : List Char → Extent
  | [] => {}
  | c :: rest =>
    if q.endsAtBreak && isLineBreak c then {}
    else if c == q.closing && !escaped then { text := [c], isClosed := true }
    else if q.embeds && c == '$' && rest.head? == some '\x7b' && !escaped then
      (q.read false (Scanner.afterBrace rest.tail)).opened
        (Scanner.beforeBrace rest.tail) (Scanner.brace rest.tail)
    else (q.read (Lexeme.escapes escaped c) rest).after [c]
termination_by text => text.length
decreasing_by
  · exact Scanner.afterBrace_length_lt c rest
  · exact Nat.lt_succ_self rest.length

@[simp]
theorem read_nil (q : Quotation) (escaped : Bool) : q.read escaped [] = {} := by
  rw [read]

theorem read_line_cons (closing : Char) (escaped : Bool) (c : Char) (rest : List Char) :
    (line closing).read escaped (c :: rest) =
      if isLineBreak c then {}
      else if c == closing && !escaped then { text := [c], isClosed := true }
      else ((line closing).read (Lexeme.escapes escaped c) rest).after [c] := by
  rw [read]
  simp only [line, Bool.true_and, Bool.false_and, Bool.false_eq_true, if_false]

theorem read_template_cons (escaped : Bool) (c : Char) (rest : List Char) :
    template.read escaped (c :: rest) =
      if c == '\x60' && !escaped then { text := [c], isClosed := true }
      else if c == '$' && rest.head? == some '\x7b' && !escaped then
        (template.read false (Scanner.afterBrace rest.tail)).opened
          (Scanner.beforeBrace rest.tail) (Scanner.brace rest.tail)
      else (template.read (Lexeme.escapes escaped c) rest).after [c] := by
  rw [read]
  simp only [template, Bool.true_and, Bool.false_and, Bool.false_eq_true, if_false]

-- Behind an embedded expression the bit is clear: a brace stands there, or there is nothing left to read.
theorem read_afterBrace (q : Quotation) (behind text : List Char) :
    q.read (Lexeme.isEscaped
        (('$' :: '\x7b' :: Scanner.beforeBrace text ++ Scanner.brace text).reverse ++ behind))
      (Scanner.afterBrace text) = q.read false (Scanner.afterBrace text) := by
  rcases Scanner.brace_eq text with h | ⟨h, hall⟩
  · rw [h, List.reverse_append, List.reverse_singleton, List.append_assoc, List.singleton_append,
      Lexeme.isEscaped_cons_of_ne (by decide)]
  · have hnone : Scanner.afterBrace text = [] := by simp [Scanner.afterBrace, h, hall]
    rw [hnone, read_nil, read_nil]

variable (nested : Scanner → List Token) (keepTrivia : Bool)

-- The embedded expression as a template has it, given what stands in front of the text that was read.
def Opening.embedding (behind : List Char) (offset : Nat) (o : Opening) : Embedding Token :=
  let start := offset + byteWidth o.before
  { span := ⟨start, start + byteWidth ('$' :: '\x7b' :: o.body ++ o.closing)⟩
    tokens := nested
      { behind := '\x7b' :: '$' :: (o.before.reverse ++ behind), ahead := o.body, offset := start + 2
        keepTrivia } }

def Extent.embeddings (behind : List Char) (offset : Nat) (e : Extent) : List (Embedding Token) :=
  e.openings.map (·.embedding nested keepTrivia behind offset)

theorem Extent.embeddings_after (passed behind : List Char) (offset : Nat) (e : Extent) :
    (e.after passed).embeddings nested keepTrivia behind offset =
      e.embeddings nested keepTrivia (passed.reverse ++ behind) (offset + byteWidth passed) := by
  simp [embeddings, after, Opening.after, Opening.embedding, Nat.add_assoc]

theorem Extent.embeddings_opened (body closing behind : List Char) (offset : Nat) (e : Extent) :
    (e.opened body closing).embeddings nested keepTrivia behind offset =
      Opening.embedding nested keepTrivia behind offset ⟨[], body, closing⟩ ::
        e.embeddings nested keepTrivia (('$' :: '\x7b' :: body ++ closing).reverse ++ behind)
          (offset + byteWidth ('$' :: '\x7b' :: body ++ closing)) := by
  rw [← embeddings_after]
  rfl

end Quotation

open Quotation

namespace Lexeme

theorem quoted_eq_read (quote : Char) (behind text : List Char) :
    quoted quote behind text = ((line quote).read (isEscaped behind) text).text := by
  induction text generalizing behind
  case nil => rw [quoted, read_nil]
  case cons c text ih =>
    rw [quoted, read_line_cons, ih, isEscaped_cons, apply_ite Extent.text, apply_ite Extent.text]
    rfl

-- A regular expression has to be closed. Its flags stand behind the delimiter.
theorem regex?_eq_read (behind text : List Char) :
    regex? behind text =
      let e := (line '/').read (isEscaped behind) text
      if e.isClosed then some (e.text ++ (text.drop e.text.length).takeWhile Char.isAlpha) else none := by
  induction text generalizing behind
  case nil => simp [regex?]
  case cons c text ih =>
    rw [regex?, read_line_cons, ih, isEscaped_cons]
    by_cases hbreak : isLineBreak c
    case pos => simp [hbreak]
    case neg =>
      by_cases hclose : c == '/' && !isEscaped behind
      case pos => simp [hbreak, hclose]
      case neg =>
        rw [if_neg hbreak, if_neg hbreak, if_neg hclose, if_neg hclose]
        simp [Extent.after, escapes, apply_ite (Option.map (c :: ·))]

end Lexeme

-- The induction is on the length, because the forward reader passes an embedded expression in one step.
theorem Scanner.template_eq_read (nested : Scanner → List Token) (keepTrivia : Bool)
    (behind text : List Char) (offset : Nat) :
    template nested keepTrivia false behind offset text =
      let e := Quotation.template.read (Lexeme.isEscaped behind) text
      (e.text, e.embeddings nested keepTrivia behind offset) := by
  induction hn : text.length using Nat.strongRecOn generalizing text behind offset
  case ind n ih =>
    subst hn
    cases text
    case nil => simp [template, Extent.embeddings]
    case cons c rest =>
      rw [read_template_cons]
      by_cases hclose : c == '\x60' && !Lexeme.isEscaped behind
      case pos => simp [template, hclose, Extent.embeddings]
      case neg =>
        by_cases hopen : c == '$' && rest.head? == some '\x7b' && !Lexeme.isEscaped behind
        case pos =>
          rw [if_neg hclose, if_pos hopen]
          simp only [Bool.and_eq_true, beq_iff_eq, List.head?_eq_some_iff, Bool.not_eq_true'] at hopen
          obtain ⟨⟨rfl, rest, rfl⟩, hb⟩ := hopen
          have hlt : (afterBrace rest).length < _ := afterBrace_length_lt '$' ('\x7b' :: rest)
          rw [template_opened nested keepTrivia hb]
          dsimp only
          rw [ih _ hlt _ _ _ rfl, read_afterBrace, Extent.embeddings_opened, List.tail_cons]
          simp [Extent.opened, Extent.after, Opening.embedding, embedding_eq]
        case neg =>
          rw [template, if_neg hclose, if_neg hclose, if_neg hopen, if_neg hopen,
            ih _ (Nat.lt_succ_self _) _ _ _ rfl, Lexeme.isEscaped_cons]
          simp only [Extent.embeddings_after]
          simp [Extent.after, Lexeme.escapes]

namespace Quotation

-- Wherever in a source a quoted text starts, the parity of the backslashes is the bit that a reader carries
-- along which starts behind the mark. So strings, regular expressions and templates end where that reader
-- stops: behind the first delimiter that is not escaped, or in front of a line break, where a regular
-- expression is given up. Templates have the embedded expressions that it has passed.
theorem readers_eq_read (nested : Scanner → List Token) (keepTrivia : Bool) (behind text : List Char)
    (offset : Nat) :
    (∀ mark, mark ≠ '\\' →
      Lexeme.isEscaped (text.reverse ++ mark :: behind) = text.foldl Lexeme.escapes false ∧
      Lexeme.quoted mark (mark :: behind) text = ((line mark).read false text).text) ∧
    (Lexeme.regex? ('/' :: behind) text =
      let e := (line '/').read false text
      if e.isClosed then some (e.text ++ (text.drop e.text.length).takeWhile Char.isAlpha) else none) ∧
    (Scanner.template nested keepTrivia false ('\x60' :: behind) offset text =
      let e := template.read false text
      (e.text, e.embeddings nested keepTrivia ('\x60' :: behind) offset)) := by
  refine ⟨fun mark hmark => ⟨?bit, ?string⟩, ?regex, ?template⟩
  case bit => rw [Lexeme.isEscaped_reverse_append, Lexeme.isEscaped_cons_of_ne hmark]
  case string => rw [Lexeme.quoted_eq_read, Lexeme.isEscaped_cons_of_ne hmark]
  case regex => rw [Lexeme.regex?_eq_read, Lexeme.isEscaped_cons_of_ne (by decide)]
  case template => rw [Scanner.template_eq_read, Lexeme.isEscaped_cons_of_ne (by decide)]

-- A backslash stands in front of the mark and counts for nothing. Of the two backslashes of the string the
-- second one is escaped, so that the quote is not. In the template the first dollar sign is escaped, but not the
-- second, nor the mark behind the brace.
theorem readers_eq_read_backslashes :
    '"' ≠ '\\' ∧ ((line '"').read false ['\\', '\\', '"', 'a']).text = ['\\', '\\', '"'] ∧
    let e := template.read false ['\\', '$', '\x7b', '$', '\x7b', 'a', '\\', '\x7d', '\x60', 'b']
    e.text = ['\\', '$', '\x7b', '$', '\x7b', 'a', '\\', '\x7d', '\x60'] ∧
      (e.embeddings Scanner.tokens true ['\x60', '\\'] 2).map (·.span) = [⟨5, 10⟩] := by
  have hquote : '"' ≠ '\\' := by decide
  have hstring := ((readers_eq_read Scanner.tokens true ['\\'] ['\\', '\\', '"', 'a'] 1).1 '"' hquote).2
  have htemplate := (readers_eq_read Scanner.tokens true ['\\']
    ['\\', '$', '\x7b', '$', '\x7b', 'a', '\\', '\x7d', '\x60', 'b'] 2).2.2
  refine ⟨hquote, ?string, ?text, ?embeddings⟩
  case string => exact hstring.symm.trans (by decide)
  case text => exact (congrArg Prod.fst htemplate).symm.trans (by decide +kernel)
  case embeddings =>
    have hspans := congrArg (fun r => r.2.map (·.span)) htemplate
    refine hspans.symm.trans ?_
    decide +kernel

end Quotation
end ScriptTree
