import ScriptTree.Proofs.Token.Unclosed

/-!
Lines and columns of tokens are those of a reader who goes through the source once, character by
character, and looks neither ahead nor back.

The table of lines looks ahead, to tell a carriage return that ends a line from one that a line feed
follows. Between these two characters reader and table differ, but no token starts or ends there.
-/

namespace ScriptTree

open Character

-- Where a reader is. `returned` says that a carriage return was just read, so that a line feed would
-- belong to the same line break.
structure Reader where
  line     : Nat := 1
  column   : Nat := 1
  returned : Bool := false

namespace Reader

def read (r : Reader) (c : Char) : Reader :=
  if c = '\r' then ⟨r.line + 1, 1, true⟩
  else if c ≠ '\n' then ⟨r.line, r.column + 1, false⟩
  else if r.returned then ⟨r.line, r.column, false⟩
  else ⟨r.line + 1, 1, false⟩

-- Line and column behind a text.
def through (text : List Char) : Nat × Nat :=
  let r := text.foldl read {}
  (r.line, r.column)

end Reader

-- Does a line end with the character, if `rest` comes after it?
def endsLine (c : Char) (rest : List Char) : Bool :=
  c == '\n' || (c == '\r' && rest.head? != some '\n')

-- Line and column behind a text that begins at `place` and that is followed by `after`.
def placeBehind (after : List Char) : (place : Nat × Nat) → List Char → Nat × Nat
  | place, [] => place
  | (line, column), c :: text =>
    placeBehind after (if endsLine c (text ++ after) then (line + 1, 1) else (line, column + 1)) text

theorem LineStart.following_cons (offset : Nat) (c : Char) (text : List Char) :
    following offset (c :: text) =
      if endsLine c text then
        ⟨offset + c.utf8Size, text⟩ :: following (offset + c.utf8Size) text
      else following (offset + c.utf8Size) text :=
  rfl

theorem LineStart.lt_of_mem_following {offset : Nat} {text : List Char} {line : LineStart}
    (h : line ∈ following offset text) : offset < line.offset := by
  induction text generalizing offset
  case nil => simp [following] at h
  case cons c text ih =>
    have := c.utf8Size_pos
    rw [following_cons] at h
    split at h
    case isTrue =>
      cases h
      case head => exact Nat.lt_add_of_pos_right this
      case tail h => exact Nat.lt_of_le_of_lt (Nat.le_add_right ..) (ih h)
    case isFalse => exact Nat.lt_of_le_of_lt (Nat.le_add_right ..) (ih h)

theorem LineStart.charactersIn?_append (count : Nat) (text after : List Char) :
    charactersIn? count (text ++ after) (byteWidth text) = some (count + text.length) := by
  induction text generalizing count
  case nil => cases after <;> rfl
  case cons c text ih =>
    have := c.utf8Size_pos
    rw [List.cons_append, byteWidth_cons, charactersIn?, if_pos (Nat.le_add_right ..),
      Nat.add_sub_cancel_left, ih, List.length_cons, Nat.add_right_comm, Nat.add_assoc]
    omega

theorem LineTable.lineOf_of_lt {offset number : Nat} {line : LineStart} {others : List LineStart}
    (h : ∀ next ∈ others, offset < next.offset) : lineOf offset number line others = (number, line) := by
  cases others
  case nil => rfl
  case cons next others => rw [lineOf, if_neg (Nat.not_le.mpr (h next (.head _)))]

-- The table is searched from a line whose first characters are `begun`, with no line break in them.
theorem LineTable.lineOf_column (offset number : Nat) (begun before after : List Char) :
    let stop := offset + byteWidth begun + byteWidth before
    let found := lineOf stop number ⟨offset, begun ++ (before ++ after)⟩
      (LineStart.following (offset + byteWidth begun) (before ++ after))
    (found.1, found.2.column stop) = placeBehind after (number, begun.length + 1) before := by
  induction before generalizing offset number begun
  case nil =>
    have h : lineOf (offset + byteWidth begun) number ⟨offset, begun ++ after⟩
        (LineStart.following (offset + byteWidth begun) after) = (number, ⟨offset, begun ++ after⟩) :=
      lineOf_of_lt fun _ => LineStart.lt_of_mem_following
    simp [h, placeBehind, LineStart.column, LineStart.charactersIn?_append]
  case cons c before ih =>
    simp only [List.cons_append, LineStart.following_cons, byteWidth_cons, placeBehind]
    split
    case isTrue =>
      have h := ih (offset + byteWidth begun + c.utf8Size) (number + 1) []
      rw [lineOf, if_pos (by simp)]
      simpa [Nat.add_assoc] using h
    case isFalse =>
      have h := ih offset number (begun ++ [c])
      simpa [Nat.add_assoc] using h

theorem LineTable.locate_eq {source : String} {before after : List Char}
    (hs : source.toList = before ++ after) :
    (ofSource source).locate (byteWidth before) = placeBehind after (1, 1) before := by
  have h := lineOf_column 0 1 [] before after
  simp only [byteWidth_nil, Nat.zero_add, Nat.add_zero, List.nil_append, List.length_nil] at h
  rw [← h]
  simp only [locate, ofSource, hs]

theorem placeBehind_append (place : Nat × Nat) (before between after : List Char) :
    placeBehind after place (before ++ between) =
      placeBehind after (placeBehind (between ++ after) place before) between := by
  induction before generalizing place
  case nil => rfl
  case cons c before ih => simp only [List.cons_append, placeBehind, ih, List.append_assoc]

-- One place comes before another: on an earlier line, or on the same one in an earlier column.
def Precedes : (place place' : Nat × Nat) → Prop :=
  Prod.Lex (· < ·) (· < ·)

theorem Precedes.trans {p q r : Nat × Nat} (h : Precedes p q) (h' : Precedes q r) : Precedes p r := by
  simp only [Precedes, Prod.lex_def] at *
  omega

theorem precedes_placeBehind {text : List Char} (h : text ≠ []) (place : Nat × Nat)
    (after : List Char) : Precedes place (placeBehind after place text) := by
  induction text generalizing place
  case nil => contradiction
  case cons c text ih =>
    have hstep : Precedes place (placeBehind (text ++ after) place [c]) := by
      simp only [placeBehind, List.nil_append, Precedes, Prod.lex_def]
      split <;> simp
    rw [← List.singleton_append, placeBehind_append]
    cases text
    case nil => exact hstep
    case cons => exact hstep.trans (ih (List.cons_ne_nil _ _) _)

-- The two characters of one line break are not torn apart.
def IsSeam (before after : List Char) : Prop :=
  before.getLast? = some '\r' → after.head? ≠ some '\n'

namespace Reader

-- The reader is at a place, with `rest` in front. Only between the two characters of one line break it
-- is ahead, since it takes the line to have ended.
def IsAt (r : Reader) (place : Nat × Nat) (rest : List Char) : Prop :=
  (r.line, r.column) =
    if r.returned ∧ rest.head? = some '\n' then (place.1 + 1, 1) else place

theorem IsAt.read {r : Reader} {place : Nat × Nat} {c : Char} {rest : List Char}
    (h : r.IsAt place (c :: rest)) : (r.read c).IsAt (placeBehind rest place [c]) rest := by
  simp only [IsAt, Reader.read, placeBehind, endsLine, List.head?_cons, List.nil_append] at *
  grind

theorem IsAt.foldl_read {r : Reader} {place : Nat × Nat} {text rest : List Char}
    (h : r.IsAt place (text ++ rest)) : (text.foldl Reader.read r).IsAt (placeBehind rest place text) rest := by
  induction text generalizing r place
  case nil => exact h
  case cons c text ih =>
    rw [← List.singleton_append, placeBehind_append]
    exact ih h.read

theorem returned_iff (text : List Char) :
    (text.foldl read {}).returned ↔ text.getLast? = some '\r' := by
  cases text.eq_nil_or_concat
  case inl h => simp [h]
  case inr h =>
    obtain ⟨text, c, rfl⟩ := h
    simp only [List.concat_eq_append, List.foldl_append, List.foldl_cons, List.foldl_nil, read]
    grind

theorem through_eq {before after : List Char} (h : IsSeam before after) :
    through before = placeBehind after (1, 1) before := by
  have ha : IsAt {} (1, 1) (before ++ after) := by simp [IsAt]
  have hr := ha.foldl_read
  rwa [IsAt, if_neg fun hn => h ((returned_iff before).mp hn.left) hn.right] at hr

end Reader

theorem isSeam_of_forall {text after : List Char} (h : ∀ c ∈ text, isLineBreak c = false) :
    IsSeam text after := fun hl => by
  simpa [isLineBreak] using h '\r' (List.mem_of_getLast? hl)

theorem isSeam_nil (text : List Char) : IsSeam text [] :=
  fun _ => nofun

theorem isSeam_of_getLast? {text after : List Char} {c : Char} (h : text.getLast? = some c)
    (hc : c ≠ '\r') : IsSeam text after := fun hl =>
  absurd (Option.some.inj (h.symm.trans hl)) hc

namespace Lexeme

theorem quoted_isLineBreak (quote : Char) (behind text : List Char) :
    ∀ c ∈ quoted quote behind text, isLineBreak c = false := by
  fun_induction quoted quote behind text <;> simp_all

theorem regex?_isLineBreak {behind text found : List Char} (h : regex? behind text = some found) :
    ∀ c ∈ found, isLineBreak c = false := by
  have halpha (c : Char) (hc : c.isAlpha) : isLineBreak c = false := by
    refine Bool.eq_false_iff.mpr fun hb => ?_
    rcases (by simpa [isLineBreak] using hb : c = '\r' ∨ c = '\n') with rfl | rfl <;> cases hc
  induction text generalizing behind found
  case nil => cases h
  case cons c text ih =>
    rw [regex?] at h
    split at h
    case isTrue => cases h
    case isFalse hbreak =>
      split at h
      case isTrue =>
        cases h
        simp only [List.mem_cons, forall_eq_or_imp]
        exact ⟨Bool.eq_false_iff.mpr hbreak, fun d hd => halpha d (List.mem_takeWhile_imp hd)⟩
      case isFalse =>
        obtain ⟨found, hfound, rfl⟩ := Option.map_eq_some_iff.mp h
        simp only [List.mem_cons, forall_eq_or_imp]
        exact ⟨Bool.eq_false_iff.mpr hbreak, ih hfound⟩

end Lexeme

namespace Scanner

theorem operatorOrWord_isLineBreak {c : Char} (hc : isLineBreak c = false) (rest : List Char) :
    ∀ d ∈ (operatorOrWord c rest).text, isLineBreak d = false := by
  have hword (d : Char) (hd : isWord d) : isLineBreak d = false := by
    simp only [isWord, Bool.and_eq_true, Bool.not_eq_true'] at hd
    exact hd.1.1.2
  fun_cases operatorOrWord c rest
  case case1 op _ => cases op <;> decide
  case case2 =>
    intro d hd
    rcases Lexeme.isWord_of_mem_number d hd with h | rfl
    · exact hword d h
    · rfl
  case case3 =>
    rw [word_text]
    simp only [List.mem_cons, forall_eq_or_imp]
    exact ⟨hc, fun d hd => hword d (List.mem_takeWhile_imp hd)⟩

-- What is cut off takes a line break whole, or goes on to the end of the range.
theorem piece_isSeam (nested : Scanner → List Token) (s : Scanner) {c : Char} {rest more : List Char}
    (h : (piece nested s c rest).text ++ more = c :: rest) :
    IsSeam (piece nested s c rest).text more := by
  revert h
  fun_cases piece nested s c rest
  case case1 hslash =>
    refine fun _ => isSeam_of_forall ?_
    have hc : c = '/' := by simp_all
    simp only [hc, List.mem_cons, forall_eq_or_imp]
    exact ⟨rfl, rfl, fun d hd => by simpa using List.mem_takeWhile_imp hd⟩
  case case2 hstar =>
    intro h
    rcases Lexeme.blockComment_closes rest.tail with ⟨before, hb⟩ | hb
    · exact isSeam_of_getLast? (c := '/') (by simp [hb, List.getLast?_cons]) (by decide)
    · have hr : '*' :: rest.tail = rest := by
        obtain ⟨_, rfl⟩ := List.head?_eq_some_iff.mp (beq_iff_eq.mp (Bool.and_eq_true_iff.mp hstar).2)
        rfl
      simp only [hb, hr] at h ⊢
      rw [List.append_right_eq_self.mp h]
      exact isSeam_nil _
  case case3 =>
    intro h _ hn
    have hm : more = rest.dropWhile isLineBreak := by
      rw [List.cons_append, List.cons.injEq] at h
      exact List.append_cancel_left (h.right.trans List.takeWhile_append_dropWhile.symm)
    have := List.head?_dropWhile_not isLineBreak rest
    rw [← hm, hn] at this
    cases this
  case case4 hblank =>
    refine fun _ => isSeam_of_forall ?_
    have hne (d : Char) (hd : isBlank d) : isLineBreak d = false := by
      rcases (by simpa [isBlank] using hd : d = ' ' ∨ d = '\t') with rfl | rfl <;> rfl
    simp only [List.mem_cons, forall_eq_or_imp]
    exact ⟨hne c hblank, fun d hd => hne d (List.mem_takeWhile_imp hd)⟩
  case case5 hmark text embeddings ht =>
    intro h
    have hc := template_closes nested s.keepTrivia false ⟨c, List.mem_singleton_self c, by simp_all⟩
      s.behind (s.offset + 1) rest
    rw [List.singleton_append, ht] at hc
    rcases hc with hc | rfl
    · exact isSeam_of_getLast? (c := '\x60')
        (by rw [List.getLast?_cons, getLast?_of_closesTemplate hc, Option.getD_some]) (by decide)
    · rw [List.append_right_eq_self.mp h]
      exact isSeam_nil _
  case case6 hbreak _ _ _ =>
    refine fun _ => isSeam_of_forall ?_
    simp only [List.mem_cons, forall_eq_or_imp]
    exact ⟨Bool.eq_false_iff.mpr hbreak, Lexeme.quoted_isLineBreak _ _ _⟩
  case case7 hbreak _ _ _ _ h =>
    refine fun _ => isSeam_of_forall ?_
    split at h
    case isFalse => cases h
    case isTrue =>
      simp only [List.mem_cons, forall_eq_or_imp]
      exact ⟨Bool.eq_false_iff.mpr hbreak, Lexeme.regex?_isLineBreak h⟩
  case case8 hbreak _ _ _ _ =>
    exact fun _ => isSeam_of_forall (operatorOrWord_isLineBreak (Bool.eq_false_iff.mpr hbreak) rest)

end Scanner

-- No line break is torn apart at the offset.
def IsSeamAt (source : List Char) (offset : Nat) : Prop :=
  ∀ before after, source = before ++ after → byteWidth before = offset → IsSeam before after

-- At the end of a range it depends on what comes after the range.
theorem Stands.isSeamAt {source behind ahead : List Char} {limit offset : Nat}
    (h : Stands source limit behind ahead offset) (hl : IsSeamAt source limit)
    (hs : IsSeam behind.reverse ahead) : IsSeamAt source offset := by
  cases ahead
  case nil => simpa [← h.stop] using hl
  case cons c ahead =>
    intro before after hsource hb
    have he : before = behind.reverse := by
      refine eq_of_prefix_of_byteWidth_eq ⟨after, hsource.symm⟩ ((List.prefix_append ..).trans h.text) ?_
      rw [hb, byteWidth_reverse, h.width]
    obtain ⟨more, hmore⟩ := h.text
    rw [← hmore, he, List.append_assoc] at hsource
    rw [he, ← List.append_cancel_left hsource]
    exact hs

namespace Token

-- The token is one of those given, or it is embedded in one of them, at any depth.
inductive OccursIn (t : Token) : List Token → Prop
  | outer {tokens : List Token} : t ∈ tokens → t.OccursIn tokens
  | inner {tokens : List Token} {around : Token} {e : Embedding Token} :
    around ∈ tokens → e ∈ around.embeddings → t.OccursIn e.tokens → t.OccursIn tokens

theorem OccursIn.cons {t u : Token} {tokens : List Token} :
    t.OccursIn (u :: tokens) → t = u ∨ (∃ e ∈ u.embeddings, t.OccursIn e.tokens) ∨ t.OccursIn tokens
  | .outer (.head _) => .inl rfl
  | .outer (.tail _ h) => .inr (.inr (.outer h))
  | .inner (.head _) he h => .inr (.inl ⟨_, he, h⟩)
  | .inner (.tail _ ha) he h => .inr (.inr (.inner ha he h))

theorem OccursIn.append {t : Token} {tokens more : List Token} :
    t.OccursIn (tokens ++ more) → t.OccursIn tokens ∨ t.OccursIn more
  | .outer h => (List.mem_append.mp h).imp .outer .outer
  | .inner ha he h => (List.mem_append.mp ha).imp (.inner · he h) (.inner · he h)

theorem not_occursIn_nil (t : Token) : ¬t.OccursIn [] := by
  rintro (h | ⟨h, _, _⟩) <;> cases h

-- The span is where the text of the token stands, and tears no line break apart.
structure Sits (source : List Char) (t : Token) : Prop where
  holds : t.span.Holds source t.value.toList
  start : IsSeamAt source t.span.start
  stop  : IsSeamAt source t.span.stop

end Token

namespace Scanner

variable {source : List Char} {limit bound : Nat} {nested : Scanner → List Token}

-- A scanner of embedded expressions finds only such tokens in those that are shorter than a bound.
def SitsBelow (nested : Scanner → List Token) (source : List Char) (bound : Nat) : Prop :=
  ∀ {s : Scanner} {limit : Nat}, s.Within source limit → s.keepTrivia → IsSeamAt source s.offset →
    IsSeamAt source limit → s.ahead.length < bound →
    ∀ {t : Token}, t.OccursIn (nested s) → t.Sits source

theorem embedding_sits {behind rest : List Char} {offset : Nat} {t : Token}
    (hn : SitsBelow nested source bound) (hb : rest.length < bound) (hl : IsSeamAt source limit)
    (h : Stands source limit behind ('$' :: '\x7b' :: rest) offset)
    (ht : t.OccursIn (embedding nested true behind offset ('\x7b' :: rest)).tokens) :
    t.Sits source := by
  rw [embedding_eq] at ht
  have hbody := h.next.next
  have hstart := hbody.isSeamAt hl (isSeam_of_getLast? (c := '\x7b') (by simp) (by decide))
  have hstop : IsSeamAt source (offset + 2 + byteWidth (beforeBrace rest)) := by
    rw [← List.takeWhile_append_dropWhile (p := (· != '\x7d')) (l := rest)] at hbody
    refine hbody.after.isSeamAt hl fun _ hhead => ?_
    have := List.head?_dropWhile_not (· != '\x7d') rest
    rw [hhead] at this
    cases this
  exact hn (s := ⟨_, _, _, _, _, _, _⟩) (hbody.shorten (beforeBrace_isPrefix rest)) rfl hstart hstop
    (Nat.lt_of_le_of_lt (beforeBrace_isPrefix rest).length_le hb) ht

-- One step: line breaks are whole at the end of the token too.
theorem scan_sits {s : Scanner} (hw : s.Within source limit) (hk : s.keepTrivia)
    (hs : IsSeamAt source s.offset) (hl : IsSeamAt source limit) (ha : s.ahead ≠ [])
    (hn : SitsBelow nested source s.ahead.length) :
    IsSeamAt source (s.scan nested).2.offset ∧
      ∀ {t : Token}, t.OccursIn [(s.scan nested).1] → t.Sits source := by
  obtain ⟨c, rest, ha⟩ := List.exists_cons_of_ne_nil ha
  have hopens (e : Embedding Token) (he : e ∈ (s.scan nested).1.embeddings) := opens_of_mem_scan hw he
  have hw : Stands source limit s.behind (c :: rest) s.offset := ha ▸ hw
  simp only [scan, ha, note_offset, advance] at hopens ⊢
  obtain ⟨⟨more, hmore⟩, hne, -⟩ := piece_fits nested s c rest
  have hseam := piece_isSeam nested s hmore
  generalize piece nested s c rest = p at *
  have hp : Stands source limit s.behind (p.text ++ more) s.offset := hmore ▸ hw
  have hstop : IsSeamAt source (s.offset + byteWidth p.text) := by
    refine hp.after.isSeamAt hl ?_
    rwa [IsSeam, List.reverse_append, List.reverse_reverse, List.getLast?_append_of_ne_nil _ hne]
  refine ⟨hstop, fun ht => ?_⟩
  rcases ht.cons with rfl | ⟨e, he, ht⟩ | ht
  · exact ⟨by simpa using hp.holds (List.prefix_append ..), hs, hstop⟩
  · obtain ⟨behind, offset, rest, hw, hb, rfl⟩ := hopens e he
    exact embedding_sits hn (ha ▸ hb) hl hw (hk ▸ ht)
  · exact absurd ht (Token.not_occursIn_nil _)

theorem tokensWithin_sits {s : Scanner} {bound : Nat} (hw : s.Within source limit)
    (hk : s.keepTrivia) (hs : IsSeamAt source s.offset) (hl : IsSeamAt source limit)
    (hb : s.ahead.length ≤ bound) {t : Token} (ht : t.OccursIn (tokensWithin bound s)) :
    t.Sits source := by
  induction bound generalizing s limit t
  case zero => exact absurd ht t.not_occursIn_nil
  case succ bound ih =>
    rw [tokensWithin, nextWithin_of_keepTrivia hk] at ht
    by_cases ha : s.ahead = []
    case pos =>
      simp only [scan, ha, Token.endOfInput, if_true] at ht
      exact absurd ht t.not_occursIn_nil
    case neg =>
      have hn : SitsBelow (tokensWithin bound) source s.ahead.length :=
        fun hw hk hs hl hb _ ht => ih hw hk hs hl (by omega) ht
      have hc : TilesBelow (tokensWithin bound) source s.ahead.length :=
        fun hw hk hb => tokensWithin_tiles hw hk (by omega)
      have hcut := (scan_isCut hw ha hk hc).left
      have hlt := scan_length_lt (tokensWithin bound) ha
      have hk' := (scan_keepTrivia (tokensWithin bound) s).trans hk
      obtain ⟨hs', ht'⟩ := scan_sits hw hk hs hl ha hn
      simp only [hcut.kind_ne, if_false] at ht
      rcases ht.cons with rfl | ⟨e, he, ht⟩ | ht
      · exact ht' (.outer (.head _))
      · exact ht' (.inner (.head _) he ht)
      · exact ih (scan_within hw) hk' hs' hl (by omega) ht

end Scanner

namespace Token

theorem mem_placeEmbeddings {table : LineTable} {e : Embedding Token} {es : List (Embedding Token)}
    (h : e ∈ placeEmbeddings table es) : ∃ e' ∈ es, e.tokens = placeTokens table e'.tokens := by
  induction es
  case nil => cases h
  case cons e' es ih =>
    rcases List.mem_cons.mp h with rfl | h
    · cases e'
      exact ⟨_, .head _, rfl⟩
    · obtain ⟨e'', he, h⟩ := ih h
      exact ⟨e'', .tail _ he, h⟩

theorem OccursIn.of_placeTokens {table : LineTable} {t : Token} {tokens : List Token}
    (h : t.OccursIn (placeTokens table tokens)) :
    ∃ u : Token, u.OccursIn tokens ∧ t = u.place table := by
  generalize hp : placeTokens table tokens = placed at h
  induction h generalizing tokens
  case outer h =>
    obtain ⟨u, hu, rfl⟩ := mem_placeTokens (hp ▸ h)
    exact ⟨u, .outer hu, rfl⟩
  case inner e hmem he _ ih =>
    obtain ⟨around, ha, rfl⟩ := mem_placeTokens (hp ▸ hmem)
    obtain ⟨e', he', htokens⟩ : ∃ e' ∈ around.embeddings, e.tokens = placeTokens table e'.tokens := by
      cases around
      exact mem_placeEmbeddings he
    obtain ⟨u, hu, rfl⟩ := ih htokens.symm
    exact ⟨u, .inner ha he' hu, rfl⟩

theorem isSeamAt_ends {source : List Char} {offset : Nat}
    (h : offset = 0 ∨ offset = byteWidth source) : IsSeamAt source offset := by
  rintro before after rfl rfl
  have hb := length_le_byteWidth before
  have ha := length_le_byteWidth after
  rw [byteWidth_append] at h
  rcases h with h | h
  · rw [List.length_eq_zero_iff.mp (show before.length = 0 by omega)]
    exact nofun
  · rw [List.length_eq_zero_iff.mp (show after.length = 0 by omega)]
    exact isSeam_nil before

theorem sits_of_occursIn_scan {source : String} {t : Token} (h : t.OccursIn (scan source true)) :
    t.Sits source.toList := by
  rw [scan, ← byteWidth_toList] at h
  rcases h.append with h | h
  · have hw : (Scanner.ofSource source true).Within source.toList (byteWidth source.toList) :=
      ⟨List.prefix_rfl, rfl, Nat.zero_add _⟩
    exact Scanner.tokensWithin_sits hw rfl (isSeamAt_ends (.inl rfl)) (isSeamAt_ends (.inr rfl))
      (Nat.le_refl _) h
  · rcases h.cons with rfl | ⟨_, he, _⟩ | h
    · have hends : IsSeamAt source.toList (byteWidth source.toList) := isSeamAt_ends (.inr rfl)
      exact ⟨⟨source.toList, [], by simp [endOfInput], by simp [endOfInput]⟩, hends, hends⟩
    · cases he
    · exact absurd h t.not_occursIn_nil

-- A token that tears no line break apart is placed as a reader is in front of it and behind it.
theorem Sits.position_eq {source : String} {t : Token} (h : t.Sits source.toList) :
    ∃ before after, source.toList = before ++ t.value.toList ++ after ∧
      t.span = ⟨byteWidth before, byteWidth (before ++ t.value.toList)⟩ ∧
      (LineTable.ofSource source).position t.span =
        ⟨(Reader.through before).1, (Reader.through before).2,
          (Reader.through (before ++ t.value.toList)).1,
          (Reader.through (before ++ t.value.toList)).2⟩ := by
  obtain ⟨⟨before, after, hs, hspan⟩, hstart, hstop⟩ := h
  rw [hspan] at hstart hstop ⊢
  have hs' := hs.trans (List.append_assoc ..)
  refine ⟨before, after, hs, rfl, ?_⟩
  rw [LineTable.position, LineTable.locate_eq hs, LineTable.locate_eq hs',
    Reader.through_eq (hstart _ _ hs' rfl), Reader.through_eq (hstop _ _ hs rfl)]

theorem place_position (t : Token) (table : LineTable) :
    (t.place table).position = table.position t.span := by
  cases t; rfl

-- Each token, at any depth, is placed where a reader is in front of its text and behind it. And offsets
-- that come later in the source, whether or not a token starts or ends there, are placed later.
theorem ofSource_position (source : String) :
    (∀ t : Token, t.OccursIn (ofSource source true) →
      ∃ before after, source.toList = before ++ t.value.toList ++ after ∧
        t.span = ⟨byteWidth before, byteWidth (before ++ t.value.toList)⟩ ∧
        (t.position.startLine, t.position.startColumn) = Reader.through before ∧
        (t.position.stopLine, t.position.stopColumn) =
          Reader.through (before ++ t.value.toList)) ∧
    ∀ before between after, source.toList = before ++ between ++ after → between ≠ [] →
      Precedes ((LineTable.ofSource source).locate (byteWidth before))
        ((LineTable.ofSource source).locate (byteWidth (before ++ between))) := by
  constructor
  case left =>
    intro t h
    obtain ⟨u, hu, rfl⟩ := h.of_placeTokens
    obtain ⟨before, after, hs, hspan, hposition⟩ := (sits_of_occursIn_scan hu).position_eq
    rw [place_value, place_span, place_position, hposition]
    exact ⟨before, after, hs, hspan, rfl, rfl⟩
  case right =>
    intro before between after hs hne
    rw [LineTable.locate_eq hs, LineTable.locate_eq (hs.trans (List.append_assoc ..)),
      placeBehind_append]
    exact precedes_placeBehind hne _ after

-- The line break in front of an embedded expression is one, but there is a place between its characters.
theorem ofSource_position_embedded :
    (∃ t : Token, t.value = "b" ∧ ∃ before after, "\x60\r\n$\x7bb\x7d\x60".toList = before ++ 'b' :: after ∧
      (t.position.startLine, t.position.startColumn) = Reader.through before) ∧
    Precedes ((LineTable.ofSource "\x60\r\n$\x7bb\x7d\x60").locate 2)
      ((LineTable.ofSource "\x60\r\n$\x7bb\x7d\x60").locate 3) := by
  have h := ofSource_position "\x60\r\n$\x7bb\x7d\x60"
  have hb : (((ofSource "\x60\r\n$\x7bb\x7d\x60" true).head?.bind (·.embeddings.head?)).bind
      (·.tokens.head?)).map (·.value) = some "b" := by decide +kernel
  obtain ⟨t, ht, hvalue⟩ := Option.map_eq_some_iff.mp hb
  obtain ⟨e, he, ht⟩ := Option.bind_eq_some_iff.mp ht
  obtain ⟨around, ha, he⟩ := Option.bind_eq_some_iff.mp he
  obtain ⟨before, after, hs, -, hstart, -⟩ := h.left t
    (.inner (List.mem_of_head? ha) (List.mem_of_head? he) (.outer (List.mem_of_head? ht)))
  exact ⟨⟨t, hvalue, before, after, by simpa [hvalue] using hs, hstart⟩,
    h.right ['\x60', '\r'] ['\n'] _ rfl (by decide)⟩

end Token
end ScriptTree
