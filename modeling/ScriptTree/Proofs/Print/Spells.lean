import ScriptTree.Proofs.Print.Pen
import ScriptTree.Token.Listing

/-!
The signs of what a writer has written, and what one more piece adds to them.

A writer sees the last character only. So that what it knows suffices, each kind of token is said to end
with certain characters, and to be left alone by what is written behind it.
-/

namespace ScriptTree

open Character Writer

namespace TokenKind

-- What the text of a token of this kind ends with.
def EndsWith : TokenKind → Char → Prop
  | .identifier, c | .keyword _, c | .special _, c => isPrintedWord c
  | .operator op, c => op.spelling.toList.getLast? = some c
  | _, c => c ≠ ' '

-- A piece that starts with the character is kept apart from the token, or stands apart anyway.
def Admits (kind : TokenKind) (c : Char) : Prop :=
  ∀ d, kind.EndsWith d → merges d c ∨ kind.Apart [c]

variable {kind : TokenKind} {c : Char} {rest : List Char}

theorem apart_cons : kind.Apart (c :: rest) ↔ kind.Apart [c] := by
  cases kind <;> rfl

theorem apart_space : kind.Apart (' ' :: rest) := by
  cases kind <;> simp [Apart]
  case operator op => cases op <;> decide
  all_goals decide

theorem apart_newline : kind.Apart ('\n' :: rest) := by
  cases kind <;> simp [Apart]
  case operator op => cases op <;> decide
  all_goals decide

theorem EndsWith.ne_space (h : kind.EndsWith c) : c ≠ ' ' := by
  rintro rfl
  have hword : ¬isPrintedWord ' ' := by simp [not_isPrintedWord_of_structural ' ' (by decide)]
  cases kind
  case operator op => cases op <;> cases h
  case identifier | keyword | special => exact hword h
  all_goals exact h rfl

end TokenKind

-- The last character is one that its kind ends with.
def Sign.EndsWell (t : Sign) : Prop :=
  ∀ c ∈ t.text.toList.getLast?, t.kind.EndsWith c

namespace Pen

variable {p q : Pen} {t : Sign} {ss : List Sign} {core gap : List Char}

def Admits (q : Pen) (c : Char) : Prop :=
  ∀ kind ∈ q.last, kind.Admits c

theorem note_last {kind : TokenKind} {marks : Marks} (h : kind.isTrivia = false) :
    (q.note kind marks).last = some kind := by
  unfold note Scanner.note
  dsimp only
  split <;> first | rfl | cases h

-- The text, last character first, is cut into these signs, and the scanner is left as `p` says.
structure Leaves (p : Pen) (core : List Char) (ss : List Sign) : Prop where
  ends : ∀ kind ∈ p.last, ∃ c ∈ core.head?, kind.EndsWith c
  sees : ∀ rest ss', p.Apart rest → p.Sees rest ss' → Pen.Sees {} (core.reverse ++ rest) (ss ++ ss')

-- One more sign, behind something that turns one pen into the other.
theorem Leaves.add {between : List Char} (h : p.Leaves core ss) (ht : t.IsCut q.allowed)
    (hl : t.startsLine = q.startsLine) (he : t.EndsWell)
    (hbetween : ∀ rest ss', q.Sees (t.text.toList ++ rest) ss' →
      p.Apart (between.reverse ++ (t.text.toList ++ rest)) ∧
        p.Sees (between.reverse ++ (t.text.toList ++ rest)) ss') :
    (q.note t.kind t.marks).Leaves (t.text.toList.reverse ++ (between ++ core)) (ss ++ [t]) := by
  have hlast : (q.note t.kind t.marks).last = some t.kind := note_last ht.trivia
  refine ⟨fun kind hk => ?_, fun rest ss' ha hs => ?_⟩
  · rw [hlast] at hk
    cases hk
    have hc := List.getLast?_eq_some_getLast ht.text
    exact ⟨_, by rw [List.head?_append, List.head?_reverse, hc]; rfl, he _ hc⟩
  · have ⟨ha, hs⟩ := hbetween rest _ (hs.cut ht hl (ha _ hlast))
    simpa using h.sees _ _ ha hs

end Pen

namespace Writer

variable {w : Writer} {p q : Pen} {t : Sign} {ss : List Sign}

-- What is written is cut into these signs, and what is written next stands behind `q`.
def Spells (w : Writer) (ss : List Sign) (q : Pen) : Prop :=
  w.options.memberStyle = .asIs ∧ ∃ gap core p,
    w.written = gap ++ core ∧ (∀ c ∈ gap, c = ' ') ∧ (core = [] → gap = []) ∧ p.Leaves core ss ∧
      q = if w.breaks ∧ core ≠ [] then p.turned else p

-- The next piece will not touch the last one.
def IsApart (w : Writer) : Prop :=
  w.breaks ∨ w.written = [] ∨ w.last? = some ' '

theorem merges_space (c : Char) : merges ' ' c = false := by
  have h : isPrintedWord ' ' = false := not_isPrintedWord_of_structural _ (by decide)
  simp [merges, h]

theorem merges_newline (c : Char) : merges '\n' c = false := by
  have h : isPrintedWord '\n' = false := not_isPrintedWord_of_structural _ (by decide)
  simp [merges, h]

theorem flush_of_breaks (hb : w.breaks) (hw : w.written ≠ []) :
    ∃ gap, (∀ c ∈ gap, c = ' ') ∧ w.flush =
      { w with written := gap ++ '\n' :: w.written, breaks := false } := by
  refine ⟨List.replicate (w.level * w.options.indentWidth) ' ', fun c hc => List.eq_of_mem_replicate hc, ?_⟩
  rw [flush, if_neg (by simp [hb]), if_neg (by simpa using hw)]

theorem flush_of_not_breaks (h : ¬(w.breaks ∧ w.written ≠ [])) : w.flush = { w with breaks := false } := by
  obtain ⟨options, written, level, breaks⟩ := w
  rw [flush]
  split
  case isTrue hb => simpa using hb
  case isFalse hb =>
    have hb : breaks := by simpa using hb
    rw [if_pos]
    simpa [hb] using h

namespace Spells

theorem write (h : w.Spells ss q) (ht : t.IsCut q.allowed) (hl : t.startsLine = q.startsLine)
    (he : t.EndsWell) (ha : w.IsApart ∨ ∀ c ∈ t.text.toList.head?, q.Admits c) :
    (w.write t.text).Spells (ss ++ [t]) (q.note t.kind t.marks) := by
  obtain ⟨hstyle, gap, core, p, hw, hgap, hcore, hp, rfl⟩ := h
  obtain ⟨first, text, htext⟩ := List.exists_cons_of_ne_nil ht.text
  have ⟨hblank, hbreak⟩ := ht.head first (by rw [htext]; rfl)
  have hfirst (rest : List Char) : ∀ c ∈ (t.text.toList ++ rest).head?, c = first := by
    simp [htext, eq_comm]
  have hgap' {gap : List Char} (h : ∀ c ∈ gap, c = ' ') : ∀ c ∈ gap.reverse, c = ' ' :=
    fun c hc => h c (List.mem_reverse.mp hc)
  by_cases hb : w.breaks ∧ core ≠ []
  case pos =>
    rw [if_pos hb] at ht hl ha ⊢
    have hne : w.written ≠ [] := by simp [hw, hb.2]
    obtain ⟨indent, hindent, hflush⟩ := flush_of_breaks hb.1 hne
    have hseparator : (w.flush.last?.any (merges · first)) = false := by
      rw [hflush, last?]
      cases indent
      case nil => simp [merges_newline]
      case cons c indent => simp [hindent c (.head _), merges_space]
    have hwrite : w.write t.text =
        { w with
          written := [] ++ (t.text.toList.reverse ++ ((indent ++ '\n' :: gap) ++ core))
          breaks := false } := by
      rw [Writer.write, htext]
      dsimp only
      rw [hseparator, hflush, hw]
      simp
    rw [hwrite]
    refine ⟨hstyle, [], _, _, rfl, nofun, by simp, hp.add ht hl he fun rest ss' hs => ?_, by simp⟩
    have hturned : p.turned.Sees (indent.reverse ++ (t.text.toList ++ rest)) ss' :=
      hs.blanks (hgap' hindent) fun c hc => hfirst rest c hc ▸ hblank
    have hline : p.Sees ('\n' :: (indent.reverse ++ (t.text.toList ++ rest))) ss' := by
      refine hturned.lineBreak fun c hc => ?_
      rcases hi : indent.reverse with _ | ⟨d, indent'⟩
      · rw [hi] at hc
        exact hfirst rest c hc ▸ hbreak
      · rw [hi] at hc
        cases hc
        exact hgap' hindent c (by simp [hi]) ▸ rfl
    have hall : p.Sees (gap.reverse ++ '\n' :: (indent.reverse ++ (t.text.toList ++ rest))) ss' :=
      hline.blanks (hgap' hgap) (by simp; rfl)
    refine ⟨fun kind hk => ?_, by simpa using hall⟩
    rw [List.reverse_append, List.reverse_cons, List.append_assoc, List.append_assoc]
    rcases hg : gap.reverse with _ | ⟨d, gap'⟩
    · exact TokenKind.apart_newline
    · obtain rfl := hgap' hgap d (by simp [hg])
      exact TokenKind.apart_space
  case neg =>
    rw [if_neg hb] at ht hl ha ⊢
    have hflush : w.flush = { w with breaks := false } := by
      refine flush_of_not_breaks fun h => hb ⟨h.1, fun hc => h.2 ?_⟩
      rw [hw, hc, hcore hc]
      rfl
    let separator : List Char := if w.last?.any (merges · first) then [' '] else []
    have hwrite : w.write t.text =
        { w with
          written := [] ++ (t.text.toList.reverse ++ ((separator ++ gap) ++ core))
          breaks := false } := by
      rw [Writer.write, htext]
      dsimp only
      rw [hflush]
      simp [separator, last?, hw]
    have hblanks : ∀ c ∈ separator ++ gap, c = ' ' := by
      intro c hc
      rcases List.mem_append.mp hc with hc | hc
      · simp only [separator] at hc
        split at hc <;> simp at hc
        exact hc
      · exact hgap c hc
    rw [hwrite]
    refine ⟨hstyle, [], _, _, rfl, nofun, by simp, hp.add ht hl he fun rest ss' hs => ⟨?_, ?_⟩, by simp⟩
    · intro kind hk
      rcases hbetween : (separator ++ gap).reverse with _ | ⟨d, between⟩
      case cons =>
        obtain rfl := hgap' hblanks d (by simp [hbetween])
        exact TokenKind.apart_space
      case nil =>
        obtain ⟨hs, rfl⟩ := List.append_eq_nil_iff.mp (List.reverse_eq_nil_iff.mp hbetween)
        obtain ⟨c, hc, hends⟩ := hp.ends kind hk
        have hlast : w.last? = some c := by rw [last?, hw]; exact hc
        have hmerges : merges c first = false := by
          rw [Bool.eq_false_iff]
          intro hm
          simp [separator, hlast, hm] at hs
        rw [htext]
        refine TokenKind.apart_cons.mpr ?_
        rcases ha with (hbreaks | hnil | hspace) | hadmits
        · refine absurd hc ?_
          simp [show core = [] from by_contra fun hne => hb ⟨hbreaks, hne⟩]
        · rw [last?, hnil] at hlast
          cases hlast
        · exact absurd (Option.some.inj (hlast.symm.trans hspace)) hends.ne_space
        · refine ((hadmits first (by rw [htext]; rfl) kind hk c hends).resolve_left ?_)
          simp [hmerges]
    · exact hs.blanks (hgap' hblanks) fun c hc => hfirst rest c hc ▸ hblank

theorem congr {w' : Writer} {ss' : List Sign} (h : w.Spells ss q) (hw : w' = w) (hs : ss = ss') :
    w'.Spells ss' q :=
  hw ▸ hs ▸ h

-- What writes no piece leaves what is written as it is.
theorem of_written {w' : Writer} (h : w.Spells ss q) (ho : w'.options = w.options)
    (hw : w'.written = w.written) (hb : w'.breaks = w.breaks) : w'.Spells ss q := by
  simp only [Spells, ho, hw, hb]
  exact h

theorem indent (h : w.Spells ss q) : w.indent.Spells ss q :=
  h.of_written rfl rfl rfl

theorem dedent (h : w.Spells ss q) : w.dedent.Spells ss q :=
  h.of_written rfl rfl rfl

theorem space (h : w.Spells ss q) : w.space.Spells ss q := by
  rw [Writer.space]
  split
  case isTrue => exact h
  case isFalse hspace =>
    obtain ⟨hstyle, gap, core, p, hw, hgap, hcore, hp, rfl⟩ := h
    refine ⟨hstyle, ' ' :: gap, core, p, by simp [hw], by simpa using hgap, fun hc => ?_, hp, rfl⟩
    simp [hw, hc, hcore hc] at hspace

theorem optionalSpace (h : w.Spells ss q) : w.optionalSpace.Spells ss q := by
  rw [Writer.optionalSpace]
  split
  · exact h.space
  · exact h

theorem newline (h : w.Spells ss q) : ∃ q', w.newline.Spells ss q' ∧ (q' = q ∨ q' = q.turned) := by
  rw [Writer.newline]
  split
  case isFalse => exact ⟨q, h, .inl rfl⟩
  case isTrue =>
    obtain ⟨hstyle, gap, core, p, hw, hgap, hcore, hp, rfl⟩ := h
    refine ⟨_, ⟨hstyle, gap, core, p, hw, hgap, hcore, hp, rfl⟩, ?_⟩
    by_cases hc : core = [] <;> by_cases hb : w.breaks <;> simp [hc, hb]

theorem style (h : w.Spells ss q) : w.options.memberStyle = .asIs :=
  h.1

-- The last character that is not a space belongs to the last token.
theorem lastMark (h : w.Spells ss q) :
    ∀ kind ∈ q.last, kind = .lineBreak ∨ ∃ c, w.lastMark? = some c ∧ kind.EndsWith c := by
  obtain ⟨hstyle, gap, core, p, hw, hgap, hcore, hp, rfl⟩ := h
  intro kind hk
  split at hk
  case isTrue =>
    cases hk
    exact .inl rfl
  case isFalse =>
    obtain ⟨c, hc, hends⟩ := hp.ends kind hk
    obtain ⟨core, rfl⟩ := List.head?_eq_some_iff.mp hc
    refine .inr ⟨c, ?_, hends⟩
    rw [lastMark?, hw, List.dropWhile_append_of_pos fun c hc => by simp [hgap c hc],
      List.dropWhile_cons_of_neg (by simpa using hends.ne_space)]
    rfl

-- Nothing is written yet.
theorem start {options : PrintOptions} (h : options.memberStyle = .asIs) :
    Spells { options } [] {} :=
  ⟨h, [], [], {}, rfl, nofun, fun _ => rfl, ⟨nofun, fun _ _ _ h => h⟩, by simp⟩

end Spells

theorem isApart_space (w : Writer) : w.space.IsApart := by
  rw [space]
  split
  case isTrue h =>
    simp only [Bool.or_eq_true, List.isEmpty_iff, beq_iff_eq] at h
    exact h.elim (·.imp_right .inl) fun h => .inr (.inr h)
  case isFalse => exact .inr (.inr rfl)

end Writer

namespace Token

theorem signs_placeTokens (table : LineTable) (tokens : List Token) (b : Bool) :
    signs b (placeTokens table tokens) = signs b tokens := by
  induction tokens generalizing b
  case nil => rfl
  case cons t tokens ih =>
    obtain ⟨kind, span, value, marks, position, embeddings⟩ := t
    simp only [placeTokens, place, signs, isTrivia, breaksLine, ih]
    rfl

-- The whole text, scanned.
theorem signs_ofSource {w : Writer} {ss : List Sign} {q : Pen} (h : w.Spells ss q) :
    ∃ s, s.kind = .endOfInput ∧ signs false (ofSource w.text true) = ss ++ [s] := by
  obtain ⟨-, gap, core, p, hw, hgap, hcore, hp, -⟩ := h
  refine ⟨⟨.endOfInput, "", {}, p.startsLine⟩, rfl, ?_⟩
  have hgap' : ∀ c ∈ gap.reverse, c = ' ' := fun c hc => hgap c (List.mem_reverse.mp hc)
  have hblanks : p.Sees (gap.reverse ++ []) [⟨.endOfInput, "", {}, p.startsLine⟩] :=
    Pen.Sees.nil.blanks hgap' nofun
  have hapart : p.Apart (gap.reverse ++ []) := by
    intro kind hk
    rcases hg : gap.reverse with _ | ⟨c, gap'⟩
    · exact kind.apart_nil
    · obtain rfl := hgap' c (by simp [hg])
      exact TokenKind.apart_space
  have htext : w.text.toList = core.reverse ++ (gap.reverse ++ []) := by
    simp [Writer.text, hw]
  rw [ofSource, fillPositions, signs_placeTokens]
  have hall := hp.sees _ _ hapart hblanks [] 0 w.text.toList.length w.text.utf8ByteSize (by rw [htext])
  rw [← htext] at hall
  exact hall

end Token
end ScriptTree
