import ScriptTree.Proofs.Token.Position
import ScriptTree.Proofs.Token.Sequence

/-!
The tokens of a range of a source are those of the text in the range, as if it were a source of its own,
but further on by what stands in front of the range.

So neither what stands in front of a range nor what stands behind it counts, although the scanner looks
back over the start of the range. Embedded expressions are read in this way, at any depth.
-/

namespace ScriptTree

mutual

-- The token further on in a source, with those embedded in it. Lines and columns are left as they are.
def Token.shift (width : Nat) : Token → Token
  | ⟨kind, span, value, marks, position, embeddings⟩ =>
    ⟨kind, span.moved width, value, marks, position, shiftEmbeddings width embeddings⟩

def shiftEmbeddings (width : Nat) : List (Embedding Token) → List (Embedding Token)
  | [] => []
  | e :: es => shiftEmbedding width e :: shiftEmbeddings width es

def shiftEmbedding (width : Nat) : Embedding Token → Embedding Token
  | ⟨span, tokens⟩ => ⟨span.moved width, shiftTokens width tokens⟩

def shiftTokens (width : Nat) : List Token → List Token
  | [] => []
  | t :: ts => t.shift width :: shiftTokens width ts

end

theorem shiftEmbeddings_eq_map (width : Nat) (es : List (Embedding Token)) :
    shiftEmbeddings width es = es.map (·.moved width (shiftTokens width)) := by
  induction es
  case nil => rw [shiftEmbeddings, List.map_nil]
  case cons e es ih =>
    cases e
    rw [shiftEmbeddings, shiftEmbedding, ih, List.map_cons, Embedding.moved]

theorem Token.shift_eq_moved (width : Nat) (t : Token) :
    t.shift width = t.moved width (shiftTokens width) := by
  cases t
  rw [shift, moved, shiftEmbeddings_eq_map]

theorem Token.shift_isTrivia (width : Nat) (t : Token) : (t.shift width).isTrivia = t.isTrivia := by
  rw [shift_eq_moved]
  rfl

theorem Token.shift_endOfInput (width offset : Nat) :
    (endOfInput offset).shift width = endOfInput (width + offset) := by
  simp [shift_eq_moved, moved, endOfInput, Span.moved]

theorem shiftTokens_append (width : Nat) (ts us : List Token) :
    shiftTokens width (ts ++ us) = shiftTokens width ts ++ shiftTokens width us := by
  induction ts
  case nil => simp [shiftTokens]
  case cons ih => simp [shiftTokens, ih]

-- The characters that end within the first `width` bytes of a text.
def charactersWithin : (width : Nat) → List Char → List Char
  | _, [] => []
  | width, c :: text =>
    if c.utf8Size ≤ width then c :: charactersWithin (width - c.utf8Size) text else []

theorem charactersWithin_append (text more : List Char) :
    charactersWithin (byteWidth text) (text ++ more) = text := by
  induction text
  case nil =>
    cases more
    case nil => rfl
    case cons c more => simp [charactersWithin, Nat.not_le.mpr c.utf8Size_pos]
  case cons c text ih => simp [charactersWithin, ih]

namespace Scanner

-- The scanner of a range of a source. All that it knows of what stands in front of the range is the text.
def overRange (source : String) (range : Span) (keepTrivia : Bool) : Scanner :=
  let before := charactersWithin range.start source.toList
  { behind := before.reverse
    ahead := charactersWithin range.width (source.toList.drop before.length)
    offset := range.start
    keepTrivia }

theorem overRange_eq {source : String} {behind ahead : List Char} {limit offset : Nat}
    (h : Stands source.toList limit behind ahead offset) (keepTrivia : Bool) :
    overRange source ⟨offset, limit⟩ keepTrivia = ⟨behind, ahead, offset, keepTrivia, none, [], true⟩ := by
  obtain ⟨after, hs⟩ := h.text
  have hb : charactersWithin offset source.toList = behind.reverse := by
    rw [← hs, ← h.width, ← byteWidth_reverse, List.append_assoc, charactersWithin_append]
  have hd : source.toList.drop behind.length = ahead ++ after := by
    rw [← hs, List.append_assoc, ← List.length_reverse, List.drop_left]
  have hw : Span.width ⟨offset, limit⟩ = byteWidth ahead := by
    rw [Span.width, ← h.stop, Nat.add_sub_cancel_left]
  simp [overRange, hb, hd, hw, charactersWithin_append]

-- Behind another text a range has the same tokens, further on.
theorem tokens_moved (before : List Char) (s : Scanner) :
    (s.moved before s.keepTrivia).tokens = shiftTokens (byteWidth before) s.tokens := by
  induction hn : s.ahead.length using Nat.strongRecOn generalizing s
  case ind n ih =>
    subst hn
    by_cases ha : s.ahead = []
    case pos =>
      have ha' : (s.moved before s.keepTrivia).ahead = [] := ha
      rw [tokens_of_ahead_eq_nil ha, tokens_of_ahead_eq_nil ha', shiftTokens]
    case neg =>
      have ha' : (s.moved before s.keepTrivia).ahead ≠ [] := ha
      have hm : MovesBelow tokens tokens before s.keepTrivia s.keepTrivia (shiftTokens (byteWidth before))
          s.ahead.length :=
        fun s' hk hl => hk ▸ ih _ hl s' rfl
      have hscan := scan_moved hm
      have hrest := ih _ (scan_length_lt tokens ha) (s.scan tokens).2 rfl
      rw [scan_keepTrivia] at hrest
      rw [tokens_eq ha, tokens_eq ha', hscan, hrest, ← Token.shift_eq_moved,
        apply_ite (shiftTokens _), shiftTokens, Token.shift_isTrivia]
      rfl

variable {source : List Char} {limit : Nat}

-- Whatever the depth, an embedded expression opens in the source, and its range is scanned like any other.
theorem opens_of_occursIn {s : Scanner} (hw : s.Within source limit) {t : Token}
    (ht : t.OccursIn s.tokens) {e : Embedding Token} (he : e ∈ t.embeddings) :
    ∃ limit bound, Opens tokens s.keepTrivia source limit bound e := by
  induction hn : s.ahead.length using Nat.strongRecOn generalizing s limit
  case ind n ih =>
    subst hn
    by_cases ha : s.ahead = []
    case pos =>
      rw [tokens_of_ahead_eq_nil ha] at ht
      exact absurd ht t.not_occursIn_nil
    case neg =>
      have hrest (ht : t.OccursIn (s.scan tokens).2.tokens) :=
        scan_keepTrivia tokens s ▸ ih _ (scan_length_lt tokens ha) (scan_within hw) ht rfl
      rw [tokens_eq ha] at ht
      split at ht
      case isTrue => exact hrest ht
      case isFalse =>
        rcases ht.cons with rfl | ⟨e', he', ht⟩ | ht
        · exact ⟨_, _, opens_of_mem_scan hw he⟩
        · obtain ⟨behind, offset, rest, hs, hl, rfl⟩ := opens_of_mem_scan hw he'
          rw [embedding_eq] at ht
          have hp := beforeBrace_isPrefix rest
          exact ih _ (Nat.lt_of_le_of_lt hp.length_le hl)
            (s := ⟨_, beforeBrace rest, _, s.keepTrivia, none, [], true⟩) (hs.next.next.shorten hp) ht rfl
        · exact hrest ht

end Scanner

namespace Token

theorem tokens_overRange_of_stands {source : String} {behind ahead : List Char} {limit offset : Nat}
    (h : Stands source.toList limit behind ahead offset) (keepTrivia : Bool) :
    (Scanner.overRange source ⟨offset, limit⟩ keepTrivia).tokens ++ [endOfInput limit] =
      shiftTokens offset (scan (String.ofList ahead) keepTrivia) := by
  have hm : Scanner.overRange source ⟨offset, limit⟩ keepTrivia =
      (Scanner.ofSource (String.ofList ahead) keepTrivia).moved behind.reverse keepTrivia := by
    rw [Scanner.overRange_eq h]
    simp [Scanner.moved, Scanner.ofSource, h.width]
  have ht := Scanner.tokens_moved behind.reverse (.ofSource (String.ofList ahead) keepTrivia)
  rw [byteWidth_reverse, h.width] at ht
  rw [hm, scan, shiftTokens_append, ← ht, shiftTokens, shift_endOfInput, shiftTokens,
    ← byteWidth_eq_utf8ByteSize, h.stop]
  rfl

theorem opens_of_occursIn_scan {source : String} {keepTrivia : Bool} {t : Token}
    (ht : t.OccursIn (scan source keepTrivia)) {e : Embedding Token} (he : e ∈ t.embeddings) :
    ∃ limit bound, Scanner.Opens Scanner.tokens keepTrivia source.toList limit bound e := by
  rcases OccursIn.append ht with ht | ht
  · have hw : (Scanner.ofSource source keepTrivia).Within source.toList (byteWidth source.toList) :=
      ⟨List.prefix_rfl, rfl, Nat.zero_add _⟩
    exact Scanner.opens_of_occursIn hw ht he
  · rcases ht.cons with rfl | ⟨_, he', _⟩ | ht
    · cases he
    · cases he'
    · exact absurd ht t.not_occursIn_nil

-- The tokens of a range of a source, with the one that ends it, are those of its text. And the tokens of
-- an embedded expression, however deep, are those of the range between its braces.
theorem tokens_overRange (source : String) (keepTrivia : Bool) :
    (∀ before range after, source.toList = before ++ range ++ after →
      (Scanner.overRange source ⟨byteWidth before, byteWidth (before ++ range)⟩ keepTrivia).tokens ++
          [endOfInput (byteWidth (before ++ range))] =
        shiftTokens (byteWidth before) (scan (String.ofList range) keepTrivia)) ∧
    ∀ (t : Token) (e : Embedding Token), t.OccursIn (scan source keepTrivia) → e ∈ t.embeddings →
      ∃ body closing, e.span.Holds source.toList ('$' :: '\x7b' :: body ++ closing) ∧
        '\x7d' ∉ body ∧ (closing = ['\x7d'] ∨ closing = []) ∧
        e.tokens = (Scanner.overRange source
          ⟨e.span.start + 2, e.span.start + 2 + byteWidth body⟩ keepTrivia).tokens ∧
        e.tokens ++ [endOfInput (e.span.start + 2 + byteWidth body)] =
          shiftTokens (e.span.start + 2) (scan (String.ofList body) keepTrivia) := by
  constructor
  case left =>
    intro before range after hs
    have h : Stands source.toList (byteWidth (before ++ range)) before.reverse range (byteWidth before) :=
      ⟨⟨after, by simp [hs]⟩, byteWidth_reverse before, (byteWidth_append before range).symm⟩
    exact tokens_overRange_of_stands h keepTrivia
  case right =>
    intro t e ht he
    obtain ⟨limit, bound, behind, offset, rest, h, -, rfl⟩ := opens_of_occursIn_scan ht he
    have hbody : Stands source.toList (offset + 2 + byteWidth (Scanner.beforeBrace rest))
        ('\x7b' :: '$' :: behind) (Scanner.beforeBrace rest) (offset + 2) :=
      h.next.next.shorten (Scanner.beforeBrace_isPrefix rest)
    have halone := tokens_overRange_of_stands hbody keepTrivia
    rw [Scanner.overRange_eq hbody keepTrivia] at halone
    rw [Scanner.embedding_eq]
    refine ⟨Scanner.beforeBrace rest, Scanner.brace rest, ?holds, ?inside, ?closing, ?tokens, halone⟩
    case holds =>
      exact h.holds (by simp [List.cons_prefix_cons, Scanner.throughBrace_isPrefix])
    case inside =>
      exact fun hmem => by simpa using List.mem_takeWhile_imp hmem
    case closing => exact (Scanner.brace_eq rest).imp_right And.left
    case tokens => exact congrArg Scanner.tokens (Scanner.overRange_eq hbody keepTrivia).symm

-- The backslash in front of the range escapes nothing in it. The inner one of two embedded expressions ends
-- with the range of the outer one.
theorem tokens_overRange_nested :
    (Scanner.overRange "\\'$'" ⟨1, 4⟩ true).tokens ++ [endOfInput 4] = shiftTokens 1 (scan "'$'" true) ∧
    ∃ (t : Token) (e : Embedding Token), t.OccursIn (scan "\x60$\x7b\x60$\x7bb\x7d\x60" true) ∧
      e ∈ t.embeddings ∧ e.span = ⟨4, 7⟩ ∧
      ∃ body, e.tokens ++ [endOfInput (6 + byteWidth body)] =
        shiftTokens 6 (scan (String.ofList body) true) := by
  constructor
  case left => exact (tokens_overRange "\\'$'" true).left ['\\'] ['\'', '$', '\''] [] rfl
  case right =>
    have hspan : (((((scan "\x60$\x7b\x60$\x7bb\x7d\x60" true).head?.bind (·.embeddings.head?)).bind
        (·.tokens.head?)).bind (·.embeddings.head?))).map (·.span) = some ⟨4, 7⟩ := by decide +kernel
    obtain ⟨e, he, hspan⟩ := Option.map_eq_some_iff.mp hspan
    obtain ⟨t, ht, he⟩ := Option.bind_eq_some_iff.mp he
    obtain ⟨outer, ho, ht⟩ := Option.bind_eq_some_iff.mp ht
    obtain ⟨around, ha, ho⟩ := Option.bind_eq_some_iff.mp ho
    have hocc : t.OccursIn (scan "\x60$\x7b\x60$\x7bb\x7d\x60" true) :=
      .inner (List.mem_of_head? ha) (List.mem_of_head? ho) (.outer (List.mem_of_head? ht))
    have he := List.mem_of_head? he
    obtain ⟨body, _, -, -, -, -, h⟩ := (tokens_overRange _ true).right t e hocc he
    rw [hspan] at h
    exact ⟨t, e, hocc, he, hspan, body, h⟩

end Token
end ScriptTree
