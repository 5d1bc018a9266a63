import ScriptTree.Proofs.Print.Parts

/-!
What is written for an expression is read as this expression, wherever its place has it stand.

A construct is looked at bare first, where nothing but its own precedence says what it is read as. The
parentheses that a place may put around it make an operand of it in any case.
-/

namespace ScriptTree

open Character Writer Scanner Node

/-! ### Levels -/

-- The signs are read as the expression `n` wherever an expression of this level may stand.
structure IsReadAt (level : Nat) (joinsIn : Bool) (n : Node) (ts : List Sign) : Prop where
  read       : IsRead true joinsIn n ts
  expression : 1 ≤ level → IsExpression Sign.EndsExpression joinsIn n ts
  run        : ∀ k, 3 ≤ level → k ≤ level → IsRun joinsIn k n ts
  operand    : 16 ≤ level → IsOperand n ts
  chain      : 18 ≤ level → IsChain n ts

namespace IsReadAt

variable {level least : Nat} {joinsIn : Bool} {n : Node} {ts : List Sign}

theorem starts (h : IsReadAt level joinsIn n ts) : Starts ts :=
  h.read.starts

theorem mono (h : IsReadAt level joinsIn n ts) (hl : least ≤ level) : IsReadAt least joinsIn n ts where
  read := h.read
  expression hk := h.expression (hk.trans hl)
  run k hk hkl := h.run k (hk.trans hl) (hkl.trans hl)
  operand hk := h.operand (hk.trans hl)
  chain hk := h.chain (hk.trans hl)

theorem of_read (h : IsRead true joinsIn n ts) : IsReadAt 0 joinsIn n ts where
  read := h
  expression hk := absurd hk (by decide)
  run _ hk := absurd hk (by decide)
  operand hk := absurd hk (by decide)
  chain hk := absurd hk (by decide)

theorem of_expression (h : IsExpression Sign.EndsExpression joinsIn n ts) (hs : Starts ts)
    (hl : level ≤ 2) : IsReadAt level joinsIn n ts where
  read := h.isRead hs
  expression _ := h
  run _ hk := absurd hk (by omega)
  operand hk := absurd hk (by omega)
  chain hk := absurd hk (by omega)

theorem of_run (h : IsRun joinsIn level n ts) (hs : Starts ts) (hl : level ≤ 15) :
    IsReadAt level joinsIn n ts := by
  have he : IsExpression Sign.EndsExpression joinsIn n ts := h.isExpression.mono fun _ hs => hs.endsRun
  exact { of_expression he hs (Nat.le_refl 2) with
    expression := fun _ => he
    run := fun k _ hk => h.mono hk
    operand := fun hk => absurd hk (by omega)
    chain := fun hk => absurd hk (by omega) }

theorem of_operand (h : IsOperand n ts) (hs : Starts ts) (hl : level ≤ 17) :
    IsReadAt level joinsIn n ts := by
  have hrun (k : Nat) : IsRun joinsIn k n ts := h.isRun
  exact { of_run (hrun 15) hs (Nat.le_refl 15) with
    expression := fun _ => (of_run (hrun 15) hs (Nat.le_refl 15)).expression (by decide)
    run := fun k _ _ => hrun k
    operand := fun _ => h
    chain := fun hk => absurd hk (by omega) }

theorem of_chain (h : IsChain n ts) (hs : Starts ts) : IsReadAt level joinsIn n ts := by
  have ho : IsReadAt 17 joinsIn n ts := of_operand h.isOperand hs (Nat.le_refl 17)
  exact { ho with
    expression := fun _ => ho.expression (by decide)
    run := fun k _ _ => h.isOperand.isRun
    operand := fun _ => h.isOperand
    chain := fun _ => h }

-- Where no sequence may stand.
theorem item (h : IsReadAt level joinsIn n ts) (hl : 1 ≤ level) : IsRead false joinsIn n ts :=
  (h.expression hl).isRead h.starts

end IsReadAt

theorem StartsPlainly.append {ts us : List Sign} {t : Sign} (h : StartsPlainly ts)
    (ht : t.kind ≠ .operator .colon ∧ t.kind ≠ .keyword .functionWord) :
    StartsPlainly (ts ++ t :: us) := by
  obtain ⟨s, vs, rfl, hfunction, hbrace, hcolon⟩ := h
  refine ⟨s, vs ++ t :: us, rfl, hfunction, hbrace, fun hk u hu => ?_⟩
  cases vs
  case nil =>
    cases hu
    exact ht
  case cons v vs => exact hcolon hk u hu

/-! ### Places -/

-- The signs that are written for an expression in its place, and the pens before and after it.
structure Spelled (p : Place) (heads : List Bool) (n : Node) (ts : List Sign) (q q' : Pen) : Prop where
  rests   : q'.Rests heads (n.endsWithBrace && !p.isEnclosed)
  line    : ∀ t ∈ ts.head?, t.startsLine = q.startsLine
  reads   : ∀ joinsIn : Bool, joinsIn ∨ p.isBeforeIn → IsReadAt p.least joinsIn n ts
  plainly : p.isEnclosed ∨ ¬n.startsLikeStatement → StartsPlainly ts
  plain   : p.isEnclosed ∨ n.isPlainMemberChain → IsPlain n ts
  number  : 18 ≤ p.least → p.isEnclosed ∨ ¬isNumberLiteral n → q'.last ≠ some .number

def EmitsExpression (n : Node) : Prop :=
  ∀ p heads, Emits (n.emit p) heads (Spelled p heads n)

-- The place that is just good enough for the construct.
def Place.bare (isBeforeIn : Bool) (n : Node) : Place where
  least := n.form.precedence
  isBeforeIn

-- Without parentheses, except where the word `in` would be taken for that of a loop.
def EmitsBare (n : Node) : Prop :=
  ∀ isBeforeIn isHead ⦃heads⦄, (Place.bare isBeforeIn n).encloses n.form = false →
    Emits (emitForm isBeforeIn isHead n.form) heads (Spelled (.bare isBeforeIn n) heads n)

section

variable {n : Node} {heads : List Bool} {p : Place}

theorem Spelled.mono {ts : List Sign} {q q' : Pen} {isBeforeIn : Bool}
    (h : Spelled (.bare isBeforeIn n) heads n ts q q') (hb : p.isBeforeIn = isBeforeIn)
    (he : p.isEnclosed = false) (hl : p.least ≤ n.form.precedence) : Spelled p heads n ts q q' where
  rests := he ▸ h.rests
  line := h.line
  reads joinsIn hj := (h.reads joinsIn (hb ▸ hj)).mono hl
  plainly hs := h.plainly (by rwa [he] at hs)
  plain hs := h.plain (by rwa [he] at hs)
  number hk hs := h.number (hk.trans hl) (by rwa [he] at hs)

theorem Spelled.enclosed {ts : List Sign} {q q₁ q₂ : Pen} (h : Spelled (.bare false n) (false :: heads) n ts q₁ q₂)
    (b : Bool) : Spelled p heads n (.op .leftParen q.startsLine :: (ts ++ [.op .rightParen b])) q
      { last := some (.operator .rightParen), heads, allowed := false } := by
  have hplain : IsPlain n (.op .leftParen q.startsLine :: (ts ++ [.op .rightParen b])) :=
    fun _ => (isPrimary_parenthesized (h.reads true (.inl rfl)).read).leads
  exact {
    rests := Pen.behind_paren rfl
    line := by simp
    reads := fun _ _ => .of_chain hplain.isChain ⟨_, _, rfl, rfl⟩
    plainly := fun _ => ⟨_, _, rfl, by simp, by simp, by simp⟩
    plain := fun _ => hplain
    number := fun _ _ => nofun }

theorem EmitsBare.emits (h : EmitsBare n) : EmitsExpression n := by
  obtain ⟨span, form⟩ := n
  intro p heads w ss q hw hq
  rw [Node.emit]
  split
  case isTrue =>
    have hopen : (w.write "(").Spells (ss ++ [.op .leftParen q.startsLine])
        (.behind .leftParen (false :: heads)) := hq.heads ▸ hq.head ▸ hw.leftParen
    have hnot : (Place.bare false (.mk span form)).encloses form = false := by
      simp [Place.encloses, Place.bare, Node.form]
    obtain ⟨ts, q₁, hw₁, hts⟩ := h false p.isHead hnot hopen (Pen.behind_waits rfl)
    have hclose : (write ")" (emitForm false p.isHead form (w.write "("))).Spells _ _ :=
      hw₁.rightParen hts.rests.heads
    exact ⟨_, _, by simpa using hclose, hts.enclosed _⟩
  case isFalse hencloses =>
    simp only [Place.encloses, Bool.or_eq_true, not_or, decide_eq_true_eq, Nat.not_lt] at hencloses
    obtain ⟨⟨henclosed, hleast⟩, hin⟩ := hencloses
    have hnot : (Place.bare p.isBeforeIn (.mk span form)).encloses form = false := by
      simpa [Place.encloses, Place.bare, Node.form] using hin
    obtain ⟨ts, q₁, hw₁, hts⟩ := h p.isBeforeIn p.isHead hnot hw hq
    exact ⟨ts, q₁, hw₁, hts.mono rfl (by simpa using henclosed) hleast⟩

/-! ### Operands that stand for themselves -/

theorem Spelled.of_chain {ts : List Sign} {q q' : Pen} {isBeforeIn : Bool} (hchain : IsChain n ts)
    (hplain : n.isPlainMemberChain → IsPlain n ts) (hstarts : Starts ts)
    (hrests : q'.Rests heads n.endsWithBrace) (hline : ∀ t ∈ ts.head?, t.startsLine = q.startsLine)
    (hplainly : ¬n.startsLikeStatement → StartsPlainly ts)
    (hnumber : ¬isNumberLiteral n → q'.last ≠ some .number) :
    Spelled (.bare isBeforeIn n) heads n ts q q' where
  rests := hrests.mono fun h => by simpa [Place.bare] using h
  line := hline
  reads _ _ := .of_chain hchain hstarts
  plainly hs := hplainly (hs.resolve_left nofun)
  plain hs := hplain (hs.resolve_left nofun)
  number _ hs := hnumber (hs.resolve_left nofun)

theorem Pen.Waits.last_ne_number {q : Pen} (h : q.Waits heads) : q.last ≠ some .number := fun hl => by
  have hawaits := h.last _ hl
  cases hawaits

theorem identifier_emits (h : IsPrintableName n) : EmitsBare n := by
  intro isBeforeIn isHead heads _ w ss q hw hq
  obtain ⟨ts, q', hw', hheads, ⟨span, name, b, rfl, rfl, hk⟩, hline, hwaits, hrests⟩ :=
    name_emits h isBeforeIn hw hq
  rw [emit_eq_of_not_encloses (by cases isBeforeIn <;> rfl)] at hw'
  have hplain : IsPlain (.mk span (.identifier name)) [.word name b] :=
    fun _ => (isPrimary_identifier hk).leads
  exact ⟨_, q', hw', .of_chain hplain.isChain (fun _ => hplain) ⟨_, _, rfl, by rw [hk]; rfl⟩ hrests hline
    (fun _ => ⟨_, _, rfl, by simp [hk], by simp [hk], by simp⟩) fun _ => hwaits.last_ne_number⟩

theorem this_emits {span : Span} : EmitsBare (.mk span .thisExpression) := by
  intro isBeforeIn isHead heads _ w ss q hw hq
  have hplain : IsPlain (.mk span .thisExpression) [.keyword .thisWord q.startsLine] :=
    fun _ => isPrimary_this.leads
  refine ⟨_, _, hw.keyword hq .thisWord, .of_chain hplain.isChain (fun _ => hplain)
    ⟨_, _, rfl, by simp; rfl⟩ (Pen.behindKeyword_rests rfl (by decide)) (by simp)
    (fun _ => ⟨_, _, rfl, by simp, by simp, by simp⟩) fun _ => ?_⟩
  have hwaits : (Pen.behindWord Keyword.thisWord.spelling heads).Waits heads :=
    Pen.behindKeyword_waits (k := .thisWord) rfl
  exact hwaits.last_ne_number

theorem literal_emits {span : Span} {kind : LiteralKind} {t : Token} (ht : t.IsScanned)
    (hk : Grammar.literalKind? t = some kind) (hc : kind.closes t.value) :
    EmitsBare (.mk span (.literal kind t.value)) := by
  intro isBeforeIn isHead heads _ w ss q hw hq
  obtain ⟨ts, q', hw', hrests, hnumber, hts⟩ := hw.literal hq ht hk hc
  have hbare (b : Bool) : IsPlain (.mk span (.literal kind t.value)) [t.sign b] := fun _ =>
    have hsign : Grammar.literalKind? (t.sign b).token = some kind := hk
    (isPrimary_literal hsign).leads
  have hkind (b : Bool) : (t.sign b).kind.startsExpression ∧ StartsPlainly [t.sign b] := by
    rcases kind_of_literalKind? hk with h | h | h | ⟨k, h⟩ <;>
      exact ⟨by simp [Token.sign, h, TokenKind.startsExpression], _, _, rfl, by simp [Token.sign, h],
        by simp [Token.sign, h], by simp⟩
  obtain ⟨hplain, hstarts, hplainly, hline⟩ : IsPlain (.mk span (.literal kind t.value)) ts ∧ Starts ts ∧
      StartsPlainly ts ∧ ∀ t ∈ ts.head?, t.startsLine = q.startsLine := by
    rcases hts with rfl | rfl
    · exact ⟨hbare _, ⟨_, _, rfl, (hkind _).1⟩, (hkind _).2, by simp [Token.sign]⟩
    · have hread : IsReadAt Precedence.primary true (.mk span (.literal kind t.value)) [t.sign false] :=
        .of_chain (hbare false).isChain ⟨_, _, rfl, (hkind false).1⟩
      exact ⟨fun _ => (isPrimary_parenthesized hread.read).leads, ⟨_, _, rfl, rfl⟩,
        ⟨_, _, rfl, by simp, by simp, by simp⟩, by simp⟩
  refine ⟨ts, q', hw', .of_chain hplain.isChain (fun _ => hplain) hstarts hrests hline (fun _ => hplainly)
    fun hn hl => hn ?_⟩
  rw [isNumberLiteral, Node.form, hnumber hl]

end

/-! ### Lists of expressions -/

section

variable {n : Node} {ns : List Node} {heads : List Bool} {w : Writer} {ss : List Sign} {q : Pen}
variable {span : Span}

-- Where no sequence may stand.
theorem EmitsExpression.item (h : EmitsExpression n) (isBeforeIn : Bool) :
    Emits (n.emit { least := Precedence.assignment, isBeforeIn }) heads fun ts _ q' =>
      q'.heads = heads ∧ IsRead false true n ts :=
  (h _ heads).mono fun _ _ _ h => ⟨h.rests.heads, (h.reads true (.inl rfl)).item (Nat.le_refl 1)⟩

-- Where any expression may stand.
theorem EmitsExpression.whole (h : EmitsExpression n) (isBeforeIn : Bool) :
    Emits (n.emit { isBeforeIn }) heads fun ts q q' =>
      q'.heads = heads ∧ IsRead true true n ts ∧ ∀ t ∈ ts.head?, t.startsLine = q.startsLine :=
  (h _ heads).mono fun _ _ _ h => ⟨h.rests.heads, (h.reads true (.inl rfl)).read, h.line⟩

-- Arguments between parentheses.
theorem arguments_spells (hns : ∀ n ∈ ns, EmitsExpression n) (isBeforeIn : Bool) (hw : w.Spells ss q)
    (hq : q.heads = heads) (hhead : opensHead q.last = false) :
    ∃ us b, ((emitItems { least := Precedence.assignment, isBeforeIn } true ns (w.write "(")).write ")").Spells
      (ss ++ .op .leftParen q.startsLine :: (us ++ [.op .rightParen b]))
      { last := some (.operator .rightParen), heads, allowed := false } ∧
      Listed (IsRead false true) ns us := by
  have hopen := hw.leftParen
  rw [hq, hhead] at hopen
  obtain ⟨us, q₁, hw₁, hheads, hus⟩ := emitItems_emits (fun n hn => (hns n hn).item isBeforeIn) hopen
    (Pen.behind_waits rfl)
  exact ⟨us, q₁.startsLine, by simpa using hw₁.rightParen hheads, hus⟩

-- The comma behind a hole at the end of an array.
theorem hole_spells (hw : w.Spells ss q) (hq : q.heads = heads) (isHole : Bool) :
    ∃ b q', (if isHole then w.write "," else w).Spells (ss ++ if isHole then [.op .comma b] else []) q' ∧
      q'.heads = heads := by
  cases isHole
  case false => exact ⟨false, q, by simpa using hw, hq⟩
  case true => exact ⟨_, _, hw.mark .comma ⟨rfl, rfl⟩, hq⟩

theorem array_emits {es : List (Option Node)} (hes : ∀ n, some n ∈ es → EmitsExpression n) :
    EmitsBare (.mk span (.arrayExpression es)) := by
  intro isBeforeIn isHead heads _ w ss q hw hq
  have hopen : (w.write "[").Spells _ _ := hw.mark .leftBracket ⟨rfl, rfl⟩
  rw [hq.heads] at hopen
  obtain ⟨us, q₁, hw₁, hheads, hus⟩ := emitElements_emits (fun n hn => (hes n hn).item isBeforeIn) hopen
    (Pen.behind_waits rfl)
  obtain ⟨b, q₂, hw₂, hheads⟩ := hole_spells hw₁ hheads (endsWithHole es)
  have hclose := hw₂.rightBracket
  rw [hheads] at hclose
  have hplain : IsPlain (.mk span (.arrayExpression es)) (.op .leftBracket q.startsLine ::
      ((us ++ if endsWithHole es then [.op .comma b] else []) ++ [.op .rightBracket q₂.startsLine])) :=
    fun _ => (isPrimary_array (hus b)).leads
  exact ⟨_, _, hclose.congr (by rw [Node.form, emitForm]; rfl) (by simp), .of_chain hplain.isChain (fun _ => hplain) ⟨_, _, rfl, rfl⟩
    ⟨rfl, ⟨_, rfl, rfl⟩, rfl, by simp, rfl⟩ (by simp) (fun _ => ⟨_, _, rfl, by simp, by simp, by simp⟩)
    fun _ => by simp⟩

end

end ScriptTree
