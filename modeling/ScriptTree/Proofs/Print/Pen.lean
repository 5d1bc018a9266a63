import ScriptTree.Proofs.Token.Rescan

/-!
What the scanner makes of what a writer has written.

What is written can be cut into tokens only together with what will stand behind it. So what is said of
it is said for whatever stands behind, as long as that does not go on with the last token.
-/

namespace ScriptTree

open Character

-- How the scanner stands behind what is written.
structure Pen where
  last       : Option TokenKind := none
  heads      : List Bool := []
  allowed    : Bool := true
  startsLine : Bool := false

namespace Pen

variable {q : Pen} {t : Sign} {text rest gap : List Char} {ss : List Sign}

def scanner (q : Pen) (behind ahead : List Char) (offset : Nat) : Scanner where
  behind
  ahead
  offset
  keepTrivia := true
  lastKind := q.last
  heads := q.heads
  regexAllowed := q.allowed

-- Behind one more token.
def note (q : Pen) (kind : TokenKind) (marks : Marks) : Pen :=
  let s := (q.scanner [] [] 0).note kind marks
  { last := s.lastKind, heads := s.heads, allowed := s.regexAllowed }

theorem scanner_note (kind : TokenKind) (marks : Marks) (behind ahead : List Char) (offset : Nat) :
    (q.scanner behind ahead offset).note kind marks = (q.note kind marks).scanner behind ahead offset := by
  unfold note Scanner.note
  dsimp only
  split <;> rfl

-- On a new line.
def turned (q : Pen) : Pen :=
  { q with last := some .lineBreak, allowed := true, startsLine := true }

-- The text is cut into signs, the end of input among them, of which `P` holds.
def Offers (q : Pen) (text : List Char) (P : List Sign → Prop) : Prop :=
  ∀ behind offset limit stop, text.length ≤ limit →
    P (Token.signs q.startsLine
      ((q.scanner behind text offset).tokensWithin limit ++ [.endOfInput stop]))

-- The text is cut into these signs.
def Sees (q : Pen) (text : List Char) (ss : List Sign) : Prop :=
  q.Offers text (· = ss)

-- Does the text go on with nothing that stands before it?
def Apart (q : Pen) (rest : List Char) : Prop :=
  ∀ kind ∈ q.last, kind.Apart rest

end Pen

namespace Scanner

-- The first of the tokens, and the others.
theorem tokensWithin_cons {s : Scanner} {c : Char} {rest : List Char} (hk : s.keepTrivia)
    (ha : s.ahead = c :: rest) (limit : Nat) :
    let p := piece (tokensWithin limit) s c rest
    ∃ t : Token, t.kind = p.kind ∧ t.value = String.ofList p.text ∧ t.marks = p.marks ∧
      s.tokensWithin (limit + 1) = t :: tokensWithin limit ((s.advance p.text).note p.kind p.marks) := by
  intro p
  have hne : p.kind ≠ .endOfInput := (piece_fits _ s c rest).kind
  rw [tokensWithin, nextWithin_of_keepTrivia hk]
  simp only [scan, ha]
  rw [if_neg hne]
  exact ⟨_, rfl, rfl, rfl, rfl⟩

end Scanner

open Scanner

theorem TokenKind.apart_nil (kind : TokenKind) : kind.Apart [] := by
  cases kind <;> simp [Apart]

-- What is no trivia starts with what starts no trivia.
theorem Sign.IsCut.head {t : Sign} {allowed : Bool} (h : t.IsCut allowed) :
    ∀ c ∈ t.text.toList.head?, isBlank c = false ∧ isLineBreak c = false := by
  intro c hc
  obtain ⟨text, htext⟩ := List.head?_eq_some_iff.mp hc
  let s : Scanner := { Scanner.ofSource "" true with regexAllowed := allowed }
  have hcut : (piece (fun _ => []) s c (text ++ [])).Has t := h.cut rfl htext t.kind.apart_nil
  have htrivia : (piece (fun _ => []) s c (text ++ [])).kind.isTrivia = false := hcut.kind ▸ h.trivia
  constructor <;> refine Bool.eq_false_iff.mpr fun hclass => ?_
  · have hslash : c ≠ '/' := by rintro rfl; cases hclass
    simp only [piece, beq_false_of_ne hslash] at htrivia
    cases hbreak : isLineBreak c <;> simp [hbreak, hclass, TokenKind.isTrivia] at htrivia
  · have hslash : c ≠ '/' := by rintro rfl; cases hclass
    simp [piece, hslash, hclass, TokenKind.isTrivia] at htrivia

namespace Pen

variable {q : Pen} {t : Sign} {text rest gap : List Char} {ss : List Sign} {P P' : List Sign → Prop}

-- The piece that stands first is cut off.
theorem first {kind : TokenKind} {marks : Marks} {c : Char} {ahead behind : List Char}
    {offset limit : Nat} (hc : c :: ahead = text ++ rest) (hlength : text ≠ [])
    (hlimit : (text ++ rest).length ≤ limit)
    (hpiece : ∀ nested, (piece nested (q.scanner behind (c :: ahead) offset) c ahead).Has
      ⟨kind, String.ofList text, marks, false⟩) :
    ∃ u offset' limit', Token.sign u false = ⟨kind, String.ofList text, marks, false⟩ ∧
      rest.length ≤ limit' ∧ (q.scanner behind (text ++ rest) offset).tokensWithin limit =
        u :: ((q.note kind marks).scanner (text.reverse ++ behind) rest offset').tokensWithin limit' := by
  have hpos : 0 < text.length := List.length_pos_iff.mpr hlength
  rw [List.length_append] at hlimit
  obtain ⟨limit, rfl⟩ := Nat.exists_eq_add_one_of_ne_zero (n := limit) (by omega)
  let s := q.scanner behind (c :: ahead) offset
  have ⟨u, hkind, hvalue, hmarks, htokens⟩ := tokensWithin_cons (s := s) rfl rfl limit
  obtain ⟨hk, ht, hm⟩ := hpiece (tokensWithin limit)
  rw [String.toList_ofList] at ht
  have hahead : s.advance text = q.scanner (text.reverse ++ behind) rest (offset + byteWidth text) := by
    have hdrop : (c :: ahead).drop text.length = rest := by simp [hc]
    simp only [s, advance, Pen.scanner, hdrop]
  refine ⟨u, offset + byteWidth text, limit, ?_, by omega, ?_⟩
  · simp only [Token.sign, hkind, hvalue, hmarks, s, hk, ht, hm]
  · rw [ht, hk, hm, hahead, scanner_note] at htokens
    rw [← hc, htokens]

-- A sign, and what stands behind it.
theorem Offers.cut (h : (q.note t.kind t.marks).Offers rest P) (ht : t.IsCut q.allowed)
    (hl : t.startsLine = q.startsLine) (hr : t.kind.Apart rest) (hP : ∀ us, P us → P' (t :: us)) :
    q.Offers (t.text.toList ++ rest) P' := by
  intro behind offset limit stop hlimit
  obtain ⟨c, text, htext⟩ := List.exists_cons_of_ne_nil ht.text
  have hpiece nested : (piece nested (q.scanner behind (c :: (text ++ rest)) offset) c (text ++ rest)).Has
      ⟨t.kind, String.ofList t.text.toList, t.marks, false⟩ :=
    have h := ht.cut rfl htext hr
    ⟨h.kind, by simpa using h.text, h.marks⟩
  obtain ⟨u, offset', limit', hu, hlimit', htokens⟩ :=
    first (by rw [htext]; rfl) ht.text hlimit hpiece
  obtain ⟨hkind, hvalue, hmarks, -⟩ := Sign.mk.inj hu
  have hsign : (⟨u.kind, u.value, u.marks, q.startsLine⟩ : Sign) = t := by
    rw [hkind, hvalue, hmarks, ← hl, String.ofList_toList]
  have htrivia : ¬u.isTrivia := by simp [Token.isTrivia, hkind, ht.trivia]
  rw [htokens, List.cons_append, Token.signs_of_not_isTrivia htrivia, hsign]
  exact hP _ (h _ _ limit' stop hlimit')

-- Blanks, and what stands behind them.
theorem Offers.blanks (h : q.Offers rest P) (hgap : ∀ c ∈ gap, c = ' ')
    (hr : ∀ c ∈ rest.head?, isBlank c = false) : q.Offers (gap ++ rest) P := by
  rcases gap with _ | ⟨c, gap⟩
  case nil => exact h
  case cons =>
    obtain rfl := hgap c (.head _)
    intro behind offset limit stop hlimit
    have hblank : (gap ++ rest).takeWhile isBlank = gap :=
      Lexeme.takeWhile_append (fun c hc => hgap c (.tail _ hc) ▸ rfl) hr
    have hspace : isBlank ' ' := rfl
    have hpiece nested : (piece nested (q.scanner behind (' ' :: (gap ++ rest)) offset) ' '
        (gap ++ rest)).Has ⟨.blank, String.ofList (' ' :: gap), {}, false⟩ := by
      constructor <;> simp [piece, isLineBreak, hspace, hblank]
    obtain ⟨u, offset', limit', hu, hlimit', htokens⟩ := first rfl (List.cons_ne_nil _ _) hlimit hpiece
    obtain ⟨hkind, -⟩ := Sign.mk.inj hu
    have hnote : q.note .blank {} = { q with startsLine := false } := rfl
    rw [htokens, List.cons_append, Token.signs, if_pos (by simp [Token.isTrivia, hkind, TokenKind.isTrivia])]
    have hbreaks : u.breaksLine = false := by simp [Token.breaksLine, hkind]
    rw [hbreaks, Bool.or_false, hnote]
    exact h _ _ limit' stop hlimit'

namespace Sees

theorem nil : q.Sees [] [⟨.endOfInput, "", {}, q.startsLine⟩] := by
  intro behind offset limit stop _
  have hnone : (q.scanner behind [] offset).tokensWithin limit = [] := by
    cases limit
    case zero => rfl
    case succ limit =>
      rw [tokensWithin, nextWithin_of_keepTrivia rfl]
      rfl
  rw [hnone]
  rfl

-- A sign, and what stands behind it.
theorem cut (h : (q.note t.kind t.marks).Sees rest ss) (ht : t.IsCut q.allowed)
    (hl : t.startsLine = q.startsLine) (hr : t.kind.Apart rest) :
    q.Sees (t.text.toList ++ rest) (t :: ss) :=
  Offers.cut h ht hl hr fun _ hus => congrArg (t :: ·) hus

-- Blanks, and what stands behind them.
theorem blanks (h : q.Sees rest ss) (hgap : ∀ c ∈ gap, c = ' ')
    (hr : ∀ c ∈ rest.head?, isBlank c = false) : q.Sees (gap ++ rest) ss :=
  Offers.blanks h hgap hr

-- A line break, and what stands on the next line.
theorem lineBreak (h : q.turned.Sees rest ss) (hr : ∀ c ∈ rest.head?, isLineBreak c = false) :
    q.Sees ('\n' :: rest) ss := by
  intro behind offset limit stop hlimit
  have hbreak : ([] ++ rest).takeWhile isLineBreak = [] := Lexeme.takeWhile_append nofun hr
  rw [List.nil_append] at hbreak
  have hpiece nested : (piece nested (q.scanner behind ('\n' :: rest) offset) '\n' rest).Has
      ⟨.lineBreak, String.ofList ['\n'], {}, false⟩ := by
    constructor <;> simp [piece, isLineBreak, hbreak]
  obtain ⟨u, offset', limit', hu, hlimit', htokens⟩ := first rfl (List.cons_ne_nil _ _) hlimit hpiece
  obtain ⟨hkind, -⟩ := Sign.mk.inj hu
  have hnote : q.note .lineBreak {} = { q.turned with startsLine := false } := rfl
  have hbreaks : u.breaksLine := by simp [Token.breaksLine, hkind]
  rw [← List.singleton_append, htokens, List.cons_append, Token.signs,
    if_pos (by simp [Token.isTrivia, hkind, TokenKind.isTrivia]), hbreaks, Bool.or_true, hnote]
  exact h _ _ limit' stop hlimit'

end Sees
end Pen

end ScriptTree
