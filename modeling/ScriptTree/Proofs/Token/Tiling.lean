import ScriptTree.Proofs.Token.Extent
import ScriptTree.Token.Listing

/-!
The tokens of a source stand side by side, and so do the tokens of each embedded expression.
-/

namespace ScriptTree

-- The span is where the text stands in the source. Both of its ends are between characters, since
-- the source is what stands before, the text and what stands after.
def Span.Holds (span : Span) (source text : List Char) : Prop :=
  ∃ before after,
    source = before ++ text ++ after ∧ span = ⟨byteWidth before, byteWidth (before ++ text)⟩

mutual

-- The tokens cover the source from `start` to `stop`, each from where the one before it ends.
-- `limit` is the end of the range that was scanned.
def Tiles (source : List Char) (limit : Nat) : (start : Nat) → List Token → (stop : Nat) → Prop
  | start, [], stop => start = stop
  | start, t :: ts, stop =>
    t.span.start = start ∧ t.IsCut source limit ∧ Tiles source limit t.span.stop ts stop

-- The token is a piece of the source that is not empty.
def Token.IsCut (source : List Char) (limit : Nat) : Token → Prop
  | ⟨kind, span, value, marks, _, embeddings⟩ =>
    kind ≠ .endOfInput ∧ value ≠ "" ∧ span.Holds source value.toList ∧
      (marks.template = false → embeddings = []) ∧
      Embedded source limit span.start embeddings span.stop

-- The embedded expressions stand one after the other between `low` and `high`.
def Embedded (source : List Char) (limit : Nat) :
    (low : Nat) → List (Embedding Token) → (high : Nat) → Prop
  | low, [], high => low ≤ high
  | low, e :: es, high =>
    low ≤ e.span.start ∧ e.IsCut source limit ∧ Embedded source limit e.span.stop es high

-- The expression opens with a dollar sign and a brace. It ends with a brace, or where the range
-- ends, and its tokens cover what is in between.
def Embedding.IsCut (source : List Char) (limit : Nat) : Embedding Token → Prop
  | ⟨span, tokens⟩ =>
    ∃ body closing,
      span.Holds source ('$' :: '\x7b' :: body ++ closing) ∧
      (closing = ['\x7d'] ∨ closing = [] ∧ span.stop = limit) ∧
      Tiles source (span.start + 2 + byteWidth body)
        (span.start + 2) tokens (span.start + 2 + byteWidth body)

end

theorem Span.Holds.isPrefix {span : Span} {source text : List Char} (h : span.Holds source text) :
    ∃ before, before ++ text <+: source ∧ span = ⟨byteWidth before, byteWidth (before ++ text)⟩ :=
  have ⟨before, after, hs, h⟩ := h
  ⟨before, ⟨after, hs.symm⟩, h⟩

theorem Span.holds_of_isPrefix {source before text : List Char} (h : before ++ text <+: source) :
    Span.Holds ⟨byteWidth before, byteWidth before + byteWidth text⟩ source text :=
  have ⟨after, h⟩ := h
  ⟨before, after, h.symm, by simp⟩

theorem Token.IsCut.kind_ne {source : List Char} {limit : Nat} {t : Token}
    (h : t.IsCut source limit) : t.kind ≠ .endOfInput :=
  match t, h with
  | ⟨_, _, _, _, _, _⟩, h => h.left

theorem Embedded.mono {source : List Char} {limit low low' high : Nat} {es : List (Embedding Token)}
    (hl : low' ≤ low) (h : Embedded source limit low es high) :
    Embedded source limit low' es high := by
  cases es <;> simp only [Embedded] at *
  case nil => exact Nat.le_trans hl h
  case cons => exact ⟨Nat.le_trans hl h.left, h.right⟩

-- A place in the source: what stands before it, what is left of the range, and its offset. The range
-- ends at `limit`.
structure Stands (source : List Char) (limit : Nat) (behind ahead : List Char) (offset : Nat) :
    Prop where
  text  : behind.reverse ++ ahead <+: source
  width : byteWidth behind = offset
  stop  : offset + byteWidth ahead = limit

namespace Stands

variable {source behind ahead : List Char} {limit offset : Nat}

theorem after {text : List Char} (h : Stands source limit behind (text ++ ahead) offset) :
    Stands source limit (text.reverse ++ behind) ahead (offset + byteWidth text) where
  text  := by simpa using h.text
  width := by simp [h.width, Nat.add_comm]
  stop  := by simpa [Nat.add_assoc] using h.stop

theorem next {c : Char} (h : Stands source limit behind (c :: ahead) offset) :
    Stands source limit (c :: behind) ahead (offset + c.utf8Size) := by
  have h : Stands source limit behind ([c] ++ ahead) offset := h
  simpa using h.after

-- A beginning of what is left is a range of its own.
theorem shorten {text : List Char} (h : Stands source limit behind ahead offset)
    (hp : text <+: ahead) : Stands source (offset + byteWidth text) behind text offset where
  text  := List.prefix_append_right_inj _ |>.mpr hp |>.trans h.text
  width := h.width
  stop  := rfl

theorem holds {text : List Char} (h : Stands source limit behind ahead offset)
    (hp : text <+: ahead) : Span.Holds ⟨offset, offset + byteWidth text⟩ source text := by
  simpa [h.width] using Span.holds_of_isPrefix (h.shorten hp).text

end Stands

namespace Scanner

abbrev Within (s : Scanner) (source : List Char) (limit : Nat) : Prop :=
  Stands source limit s.behind s.ahead s.offset

variable {source : List Char} {limit bound : Nat} {nested : Scanner → List Token}

-- A scanner of embedded expressions is right for those that are shorter than a bound.
def TilesBelow (nested : Scanner → List Token) (source : List Char) (bound : Nat) : Prop :=
  ∀ {s limit}, s.Within source limit → s.keepTrivia → s.ahead.length < bound →
    Tiles source limit s.offset (nested s) limit

-- The text before the first closing brace.
def beforeBrace (text : List Char) : List Char :=
  text.takeWhile (· != '\x7d')

-- The first closing brace, if there is one.
def brace (text : List Char) : List Char :=
  (text.drop (beforeBrace text).length).take 1

theorem beforeBrace_isPrefix (text : List Char) : beforeBrace text <+: text :=
  List.takeWhile_prefix _

theorem throughBrace_isPrefix (text : List Char) : beforeBrace text ++ brace text <+: text := by
  conv => rhs; rw [← List.prefix_iff_eq_append.mp (beforeBrace_isPrefix text)]
  exact List.prefix_append_right_inj _ |>.mpr <| List.take_prefix ..

theorem beforeBrace_cons {c : Char} (h : c ≠ '\x7d') (text : List Char) :
    beforeBrace (c :: text) = c :: beforeBrace text := by
  simp [beforeBrace, h]

theorem brace_cons {c : Char} (h : c ≠ '\x7d') (text : List Char) :
    brace (c :: text) = brace text := by
  simp [brace, beforeBrace_cons h]

theorem brace_eq (text : List Char) :
    brace text = ['\x7d'] ∨ brace text = [] ∧ beforeBrace text = text := by
  induction text
  case nil => simp [brace, beforeBrace]
  case cons c text ih =>
    by_cases hc : c = '\x7d'
    case pos => simp [hc, brace, beforeBrace]
    case neg => simpa [brace_cons hc, beforeBrace_cons hc] using ih

theorem embedding_eq (keepTrivia : Bool) (behind rest : List Char) (offset : Nat) :
    embedding nested keepTrivia behind offset ('\x7b' :: rest) =
      ⟨⟨offset, offset + byteWidth ('$' :: '\x7b' :: beforeBrace rest ++ brace rest)⟩,
       nested ⟨'\x7b' :: '$' :: behind, beforeBrace rest, offset + 2, keepTrivia, none, [], true⟩⟩ :=
  rfl

-- The expression was read at a dollar sign and a brace of the range that have fewer than `bound` characters
-- behind them.
def Opens (nested : Scanner → List Token) (keepTrivia : Bool) (source : List Char) (limit bound : Nat)
    (e : Embedding Token) : Prop :=
  ∃ behind offset rest, Stands source limit behind ('$' :: '\x7b' :: rest) offset ∧
    rest.length < bound ∧ e = embedding nested keepTrivia behind offset ('\x7b' :: rest)

theorem Opens.mono {keepTrivia : Bool} {bound' : Nat} {e : Embedding Token} (hb : bound ≤ bound') :
    Opens nested keepTrivia source limit bound e → Opens nested keepTrivia source limit bound' e
  | ⟨behind, offset, rest, h, hl, he⟩ => ⟨behind, offset, rest, h, Nat.lt_of_lt_of_le hl hb, he⟩

theorem opens_of_mem_template (inside : Bool) {keepTrivia : Bool} {behind text : List Char}
    {offset : Nat} {e : Embedding Token} (h : Stands source limit behind text offset)
    (he : e ∈ (template nested keepTrivia inside behind offset text).2) :
    Opens nested keepTrivia source limit text.length e := by
  induction text generalizing inside behind offset
  case nil => cases inside <;> simp [template] at he
  case cons c text ih =>
    have ih inside he := (ih inside h.next he).mono (Nat.le_succ _)
    cases inside
    case true => exact ih _ (by simpa [template] using he)
    case false =>
      rw [template] at he
      split at he
      case isTrue => simp at he
      case isFalse =>
        split at he
        case isFalse => exact ih _ (by simpa using he)
        case isTrue hopen =>
          rcases List.mem_cons.mp he with rfl | he
          · simp only [Bool.and_eq_true, beq_iff_eq, List.head?_eq_some_iff] at hopen
            obtain ⟨⟨rfl, rest, rfl⟩, _⟩ := hopen
            exact ⟨behind, offset, rest, h, by simp only [List.length_cons]; omega, rfl⟩
          · exact ih _ he

theorem embedding_isCut {behind rest : List Char} {offset : Nat}
    (hn : TilesBelow nested source bound) (hb : rest.length < bound)
    (h : Stands source limit behind ('$' :: '\x7b' :: rest) offset) :
    (embedding nested true behind offset ('\x7b' :: rest)).IsCut source limit := by
  rw [embedding_eq]
  refine ⟨beforeBrace rest, brace rest, ?holds, ?closing, ?tiles⟩
  case holds => exact h.holds <| by simp [List.cons_prefix_cons, throughBrace_isPrefix]
  case closing =>
    refine brace_eq rest |>.imp_right fun ⟨hb, hr⟩ => ⟨hb, ?_⟩
    simpa [hb, hr] using h.stop
  case tiles =>
    have h := h.next.next.shorten <| beforeBrace_isPrefix rest
    exact hn (s := ⟨_, _, _, _, _, _, _⟩) h rfl <|
      Nat.lt_of_le_of_lt (beforeBrace_isPrefix rest).length_le hb

-- Inside of an embedded expression the next one starts no earlier than behind its brace.
theorem template_embedded (inside : Bool) {behind text : List Char} {offset : Nat}
    (hn : TilesBelow nested source bound) (hb : text.length < bound)
    (h : Stands source limit behind text offset) :
    Embedded source limit
      (if inside then offset + byteWidth (beforeBrace text ++ brace text) else offset)
      (template nested true inside behind offset text).2
      (offset + byteWidth (template nested true inside behind offset text).1) := by
  fun_induction template nested true inside behind offset text <;>
    simp only [List.length_cons, reduceIte, Bool.false_eq_true] at *
  case case1 => simp [Embedded, beforeBrace, brace]
  case case2 c rest _ _ ht ih =>
    have hr := ih (by omega) h.next
    rw [ht] at hr
    by_cases hc : c = '\x7d'
    case pos => simpa [hc, beforeBrace, brace, Nat.add_assoc] using hr
    case neg => simpa [hc, beforeBrace_cons hc, brace_cons hc, Nat.add_assoc] using hr
  case case3 => simp [Embedded]
  case case4 rest hc _ _ ht ih =>
    have hr := ih (by omega) h.next
    rw [ht] at hr
    simp only [Bool.and_eq_true, beq_iff_eq, List.head?_eq_some_iff] at hc
    obtain ⟨⟨rfl, rest, rfl⟩, _⟩ := hc
    refine ⟨Nat.le_refl _, embedding_isCut hn (by simp at hb; omega) h, ?_⟩
    rw [embedding_eq]
    simpa [beforeBrace_cons, brace_cons, Nat.add_assoc] using hr
  case case5 ht ih =>
    have hr := ih (by omega) h.next
    rw [ht] at hr
    exact Embedded.mono (Nat.le_add_right ..) (by simpa [Nat.add_assoc] using hr)

@[simp]
theorem note_behind (s : Scanner) (k : TokenKind) (m : Marks) : (s.note k m).behind = s.behind := by
  unfold note
  split <;> rfl

@[simp]
theorem note_ahead (s : Scanner) (k : TokenKind) (m : Marks) : (s.note k m).ahead = s.ahead := by
  unfold note
  split <;> rfl

@[simp]
theorem note_offset (s : Scanner) (k : TokenKind) (m : Marks) : (s.note k m).offset = s.offset := by
  unfold note
  split <;> rfl

@[simp]
theorem note_keepTrivia (s : Scanner) (k : TokenKind) (m : Marks) :
    (s.note k m).keepTrivia = s.keepTrivia := by
  unfold note
  split <;> rfl

theorem scan_keepTrivia (nested : Scanner → List Token) (s : Scanner) :
    (s.scan nested).2.keepTrivia = s.keepTrivia := by
  unfold scan
  split <;> simp [advance]

theorem scan_length_lt (nested : Scanner → List Token) {s : Scanner} (ha : s.ahead ≠ []) :
    (s.scan nested).2.ahead.length < s.ahead.length := by
  obtain ⟨c, rest, ha⟩ := List.exists_cons_of_ne_nil ha
  have := List.length_pos_iff.mpr (piece_fits nested s c rest).ne_nil
  simp only [scan, ha, note_ahead, advance, List.length_drop, List.length_cons]
  omega

theorem scan_within {s : Scanner} (hw : s.Within source limit) :
    (s.scan nested).2.Within source limit := by
  unfold scan
  split
  case h_1 => exact hw
  case h_2 c rest ha =>
    have ⟨more, hm⟩ := (piece_fits nested s c rest).begins
    have hw : Stands source limit s.behind ((piece nested s c rest).text ++ more) s.offset :=
      hm ▸ ha ▸ hw
    simpa [Within, advance, ha, ← hm] using hw.after

theorem opens_of_mem_scan {s : Scanner} (hw : s.Within source limit) {e : Embedding Token}
    (he : e ∈ (s.scan nested).1.embeddings) :
    Opens nested s.keepTrivia source limit s.ahead.length e := by
  unfold scan at he
  split at he
  case h_1 => simp [Token.endOfInput] at he
  case h_2 c rest ha =>
    rcases piece_embeddings nested s c rest with ⟨-, hnone⟩ | ⟨rfl, -, text, es, ht, -, hes⟩
    · simp [hnone] at he
    · have hw : Stands source limit s.behind ('\x60' :: rest) s.offset := ha ▸ hw
      have hu : ('\x60' : Char).utf8Size = 1 := by decide
      have he : e ∈ (template nested s.keepTrivia false ('\x60' :: s.behind) (s.offset + 1) rest).2 := by
        simpa [ht, hes] using he
      exact (opens_of_mem_template false (hu ▸ hw.next) he).mono (by simp [ha])

-- One step: the token is cut off where the scanner stands, and the scanner goes on behind it.
theorem scan_isCut {s : Scanner} (hw : s.Within source limit) (ha : s.ahead ≠ [])
    (hk : s.keepTrivia) (hn : TilesBelow nested source s.ahead.length) :
    (s.scan nested).1.IsCut source limit ∧ (s.scan nested).1.span.start = s.offset ∧
      (s.scan nested).1.span.stop = (s.scan nested).2.offset := by
  have ⟨c, rest, ha⟩ := List.exists_cons_of_ne_nil ha
  simp only [scan, ha, note_offset, advance]
  have ⟨⟨more, hm⟩, ht, he⟩ := piece_fits nested s c rest
  have hp := piece_embeddings nested s c rest
  generalize piece nested s c rest = p at *
  have hw : Stands source limit s.behind (c :: rest) s.offset := ha ▸ hw
  have hs : Stands source limit s.behind (p.text ++ more) s.offset := hm ▸ hw
  refine ⟨⟨he, by simpa using ht, ?holds, ?template, ?embedded⟩, trivial, trivial⟩
  case holds => simpa using hs.holds <| List.prefix_append ..
  case template =>
    intro h
    cases hp
    case inl hp => exact hp.right
    case inr hp => exact absurd hp.right.left (by simp [h])
  case embedded =>
    cases hp
    case inl hp => simp [hp.right, Embedded]
    case inr hp =>
      obtain ⟨rfl, _, text, embeddings, hte, htx, hem⟩ := hp
      have hb : rest.length < s.ahead.length := by simp [ha]
      have h := template_embedded false hn hb hw.next
      have hu : ('\x60' : Char).utf8Size = 1 := by decide
      rw [hk] at hte
      rw [hu, hte] at h
      simpa [htx, hem, hu, Nat.add_assoc] using h.mono (Nat.le_add_right ..)

theorem nextWithin_of_keepTrivia {s : Scanner} (hk : s.keepTrivia) (bound : Nat) :
    s.nextWithin nested (bound + 1) = s.scan nested := by
  simp [nextWithin, hk]

-- The induction is on the bound, which serves both the rest of the range and the embedded
-- expressions: both are shorter than the range.
theorem tokensWithin_tiles {s : Scanner} {bound : Nat} (hw : s.Within source limit)
    (hk : s.keepTrivia) (hb : s.ahead.length ≤ bound) :
    Tiles source limit s.offset (tokensWithin bound s) limit := by
  induction bound generalizing s limit <;> unfold tokensWithin
  case zero =>
    have ha : s.ahead = [] := List.length_eq_zero_iff.mp (by omega)
    simpa [ha, Tiles] using hw.stop
  case succ bound ih =>
    rw [nextWithin_of_keepTrivia hk]
    by_cases ha : s.ahead = []
    case pos => simpa [scan, ha, Token.endOfInput, Tiles] using hw.stop
    case neg =>
      have ⟨hc, hs, ht⟩ := scan_isCut hw ha hk fun hw' hk' hl => ih hw' hk' (by omega)
      have hl := scan_length_lt (tokensWithin bound) ha
      have hk' := (scan_keepTrivia (tokensWithin bound) s).trans hk
      simp only [hc.kind_ne, reduceIte]
      exact ⟨hs, hc, ht ▸ ih (scan_within hw) hk' (by omega)⟩

end Scanner

mutual

theorem Token.place_isCut {source : List Char} {limit : Nat} (table : LineTable) :
    (t : Token) → t.IsCut source limit → (t.place table).IsCut source limit
  | ⟨_, _, _, _, _, embeddings⟩, h => by
    have ⟨hk, hv, hs, ht, he⟩ := h
    refine ⟨hk, hv, hs, fun hm => ?_, placeEmbeddings_embedded table embeddings he⟩
    simp [ht hm, placeEmbeddings]

theorem placeEmbeddings_embedded {source : List Char} {limit low high : Nat} (table : LineTable) :
    (es : List (Embedding Token)) → Embedded source limit low es high →
      Embedded source limit low (placeEmbeddings table es) high
  | [], h => h
  | ⟨_, tokens⟩ :: es, h => by
    have ⟨hl, ⟨body, closing, hs, hc, ht⟩, hr⟩ := h
    exact ⟨hl, ⟨body, closing, hs, hc, placeTokens_tiles table tokens ht⟩,
      placeEmbeddings_embedded table es hr⟩

theorem placeTokens_tiles {source : List Char} {limit start stop : Nat} (table : LineTable) :
    (ts : List Token) → Tiles source limit start ts stop →
      Tiles source limit start (placeTokens table ts) stop
  | [], h => h
  | ⟨k, s, v, m, p, e⟩ :: ts, h => by
    have ⟨hs, hc, hr⟩ := h
    exact ⟨hs, Token.place_isCut table ⟨k, s, v, m, p, e⟩ hc, placeTokens_tiles table ts hr⟩

end

theorem placeTokens_append (table : LineTable) (ts us : List Token) :
    placeTokens table (ts ++ us) = placeTokens table ts ++ placeTokens table us := by
  induction ts <;> simp_all [placeTokens]

namespace Token

theorem scan_tiles (source : String) :
    Tiles source.toList source.utf8ByteSize 0 (Scanner.ofSource source true).tokens
      source.utf8ByteSize := by
  refine Scanner.tokensWithin_tiles (s := .ofSource source true) ⟨?_, rfl, ?_⟩ rfl (Nat.le_refl _)
  · exact List.prefix_rfl
  · simp [Scanner.ofSource, byteWidth_toList]

end Token
end ScriptTree
