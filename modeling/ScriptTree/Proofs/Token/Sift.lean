import ScriptTree.Proofs.Token.Sequence

/-!
A scanner that drops trivia finds the tokens that one finds that keeps them, without the trivia.

What a slash is depends on trivia too, line breaks among them, and each embedded expression is scanned
anew. So both scanners are followed side by side, at any depth.
-/

namespace ScriptTree

mutual

-- The token without the trivia of its embedded expressions.
def Token.sift : Token → Token
  | ⟨kind, span, value, marks, position, embeddings⟩ =>
    ⟨kind, span, value, marks, position, siftEmbeddings embeddings⟩

def siftEmbeddings : List (Embedding Token) → List (Embedding Token)
  | [] => []
  | e :: es => siftEmbedding e :: siftEmbeddings es

def siftEmbedding : Embedding Token → Embedding Token
  | ⟨span, tokens⟩ => ⟨span, siftTokens tokens⟩

-- The tokens that are no trivia, at any depth.
def siftTokens : List Token → List Token
  | [] => []
  | t :: ts => if t.isTrivia then siftTokens ts else t.sift :: siftTokens ts

end

namespace Token

@[simp]
theorem sift_kind (t : Token) : t.sift.kind = t.kind := by
  cases t
  simp [sift]

@[simp]
theorem sift_isTrivia (t : Token) : t.sift.isTrivia = t.isTrivia := by
  simp [isTrivia]

@[simp]
theorem endOfInput_sift (offset : Nat) : (endOfInput offset).sift = endOfInput offset := by
  simp [endOfInput, sift, siftEmbeddings]

end Token

theorem Token.place_isTrivia (t : Token) (table : LineTable) :
    (t.place table).isTrivia = t.isTrivia := by
  cases t
  simp [isTrivia, place]

theorem siftTokens_append (ts us : List Token) :
    siftTokens (ts ++ us) = siftTokens ts ++ siftTokens us := by
  induction ts
  case nil => simp [siftTokens]
  case cons t ts ih =>
    rw [List.cons_append, siftTokens, siftTokens, ih]
    split <;> rfl

-- Sifting leaves the spans as they are.
theorem siftEmbedding_eq_moved (e : Embedding Token) : siftEmbedding e = e.moved 0 siftTokens := by
  cases e
  simp [siftEmbedding, Embedding.moved, Span.moved]

theorem siftEmbeddings_eq_map (es : List (Embedding Token)) :
    siftEmbeddings es = es.map (·.moved 0 siftTokens) := by
  induction es
  case nil => simp [siftEmbeddings]
  case cons ih => rw [siftEmbeddings, siftEmbedding_eq_moved, ih, List.map_cons]

theorem Token.sift_eq_moved (t : Token) : t.sift = t.moved 0 siftTokens := by
  cases t
  simp [sift, moved, Span.moved, siftEmbeddings_eq_map]

namespace Scanner

-- The same scanner, but trivia are dropped.
def dropping (s : Scanner) : Scanner :=
  { s with keepTrivia := false }

@[simp]
theorem dropping_keepTrivia (s : Scanner) : s.dropping.keepTrivia = false :=
  rfl

theorem moved_nil_eq_dropping (s : Scanner) : s.moved [] false = s.dropping := by
  simp [moved, dropping]

variable {nested nested' : Scanner → List Token}

-- One step, if embedded expressions are sifted that are shorter than the range.
theorem scan_sift {s : Scanner} (hk : s.keepTrivia)
    (hn : ∀ {s' : Scanner}, s'.keepTrivia → s'.ahead.length < s.ahead.length →
      nested' s'.dropping = siftTokens (nested s')) :
    s.dropping.scan nested' = ((s.scan nested).1.sift, (s.scan nested).2.dropping) := by
  have hm : MovesBelow nested nested' [] s.keepTrivia false siftTokens s.ahead.length :=
    fun s' hk' hl => moved_nil_eq_dropping s' ▸ hn (hk'.trans hk) hl
  have hscan := scan_moved hm
  rwa [moved_nil_eq_dropping, moved_nil_eq_dropping, byteWidth_nil, ← Token.sift_eq_moved] at hscan

theorem tokens_sift {s : Scanner} (hk : s.keepTrivia) : s.dropping.tokens = siftTokens s.tokens := by
  induction hn : s.ahead.length using Nat.strongRecOn generalizing s
  case ind n ih =>
    subst hn
    by_cases ha : s.ahead = []
    case pos =>
      rw [tokens_of_ahead_eq_nil ha, tokens_of_ahead_eq_nil (s := s.dropping) ha, siftTokens]
    case neg =>
      have hscan : s.dropping.scan tokens = ((s.scan tokens).1.sift, (s.scan tokens).2.dropping) :=
        scan_sift hk fun hk hl => ih _ hl hk rfl
      have hrest := ih _ (scan_length_lt tokens ha) ((scan_keepTrivia tokens s).trans hk) rfl
      rw [tokens_eq ha, tokens_eq (s := s.dropping) ha, hscan, hk]
      cases ht : (s.scan tokens).1.isTrivia <;> simp [ht, siftTokens, hrest]

end Scanner

mutual

theorem Token.place_sift (table : LineTable) : (t : Token) → t.sift.place table = (t.place table).sift
  | ⟨_, _, _, _, _, embeddings⟩ => by
    simp only [Token.sift, Token.place, placeEmbeddings_sift table embeddings]

theorem placeEmbeddings_sift (table : LineTable) : (es : List (Embedding Token)) →
    placeEmbeddings table (siftEmbeddings es) = siftEmbeddings (placeEmbeddings table es)
  | [] => rfl
  | ⟨_, tokens⟩ :: es => by
    simp only [siftEmbeddings, siftEmbedding, placeEmbeddings, placeEmbedding,
      placeTokens_sift table tokens, placeEmbeddings_sift table es]

theorem placeTokens_sift (table : LineTable) : (ts : List Token) →
    placeTokens table (siftTokens ts) = siftTokens (placeTokens table ts)
  | [] => rfl
  | ⟨k, s, v, m, p, e⟩ :: ts => by
    have ht := Token.place_sift table ⟨k, s, v, m, p, e⟩
    have hts := placeTokens_sift table ts
    rw [siftTokens, placeTokens, siftTokens, Token.place_isTrivia]
    split
    case isTrue => exact hts
    case isFalse => rw [placeTokens, ht, hts]

end

namespace Token

-- Tokens without trivia are those with trivia, sifted: the same kinds, spans, values and marks, at the
-- same lines and columns, and so in embedded expressions.
theorem ofSource_sift (source : String) :
    ofSource source false = siftTokens (ofSource source true) := by
  have h := Scanner.tokens_sift (s := .ofSource source true) rfl
  rw [ofSource, ofSource, fillPositions, fillPositions, ← placeTokens_sift, scan, scan,
    siftTokens_append, ← h]
  rw [siftTokens, endOfInput_sift]
  rfl

end Token
end ScriptTree
