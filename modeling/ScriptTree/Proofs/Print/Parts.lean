import ScriptTree.Proofs.Parse.Spells.Body
import ScriptTree.Proofs.Print.Pieces

/-!
What is put together from parts: names, lists, the heads of statements and functions.
-/

namespace ScriptTree

open Character Writer Scanner

namespace Pen

variable {name : String} {heads : List Bool} {allowed : Bool}

theorem behindWord_waits (h : opensHead (some (Scanner.word name.toList).kind) = false) :
    (behindWord name heads).Waits heads := by
  have hword := word_kind_isWord name.toList
  refine ⟨rfl, fun kind hk => ?_, h, fun _ => ⟨_, rfl, hword⟩⟩
  cases hk
  cases hkind : (Scanner.word name.toList).kind <;> first | rfl | (rw [hkind] at hword; cases hword)

theorem behindWord_rests (h : opensHead (some (Scanner.word name.toList).kind) = false)
    (hm : (Scanner.word name.toList).marks.isOperator = false) :
    (behindWord name heads).Rests heads false := by
  have hword := word_kind_isWord name.toList
  refine ⟨rfl, ⟨_, rfl, ?_⟩, h, by simp [behindWord, hm], rfl⟩
  cases hkind : (Scanner.word name.toList).kind <;> first | rfl | (rw [hkind] at hword; cases hword)

theorem behindKeyword_waits {k : Keyword} (h : opensHead (some (.keyword k)) = false) :
    (behindWord k.spelling heads).Waits heads :=
  behindWord_waits (by rwa [show (Scanner.word k.spelling.toList).kind = .keyword k from Sign.keyword_kind k false])

theorem behindKeyword_rests {k : Keyword} (h : opensHead (some (.keyword k)) = false)
    (hk : k ≠ .inWord ∧ k ≠ .instanceofWord) : (behindWord k.spelling heads).Rests heads false := by
  refine behindWord_rests ?_ ?_
  · rwa [show (Scanner.word k.spelling.toList).kind = .keyword k from Sign.keyword_kind k false]
  · revert hk
    cases k <;> simp <;> rfl

-- Behind the parenthesis that closes the head of a statement.
theorem waits_behind_head :
    ({ last := some (.operator .rightParen), heads, allowed := true } : Pen).Waits heads :=
  ⟨rfl, by rintro _ ⟨⟩; rfl, rfl, nofun⟩

end Pen

namespace Writer

variable {heads : List Bool} {f g : Writer → Writer} {R : List Sign → Pen → Pen → Prop}

-- Where an operand may stand, `f` writes signs of which `R` holds, and of the pen before and after.
def Emits (f : Writer → Writer) (heads : List Bool) (R : List Sign → Pen → Pen → Prop) : Prop :=
  ∀ ⦃w ss q⦄, w.Spells ss q → q.Waits heads →
    ∃ ts q', (f w).Spells (ss ++ ts) q' ∧ R ts q q'

theorem Emits.mono {R' : List Sign → Pen → Pen → Prop} (h : Emits f heads R)
    (hr : ∀ ts q q', R ts q q' → R' ts q q') : Emits f heads R' :=
  fun _ _ _ hw hq =>
    have ⟨ts, q', hw, h⟩ := h hw hq
    ⟨ts, q', hw, hr _ _ _ h⟩

-- A word, and something in parentheses behind it.
theorem Spells.head {w : Writer} {ss : List Sign} {q : Pen} {k : Keyword} {R : List Sign → Prop}
    (h : w.Spells ss q) (hq : q.Waits heads)
    (hf : Emits f (opensHead (some (.keyword k)) :: heads) fun ts _ q' =>
      q'.heads = opensHead (some (.keyword k)) :: heads ∧ R ts) :
    ∃ ts b, (w.head k.spelling f).Spells
      (ss ++ .keyword k q.startsLine :: .op .leftParen false :: (ts ++ [.op .rightParen b]))
      { last := some (.operator .rightParen), heads, allowed := opensHead (some (.keyword k)) } ∧
      R ts := by
  have hopen := (h.keyword hq k).optionalSpace.leftParen
  have hlast : (Pen.behindWord k.spelling heads).last = some (.keyword k) :=
    congrArg some (Sign.keyword_kind k false)
  rw [hlast] at hopen
  obtain ⟨ts, q', hinner, hheads, hts⟩ := hf hopen (Pen.behind_waits rfl)
  have hclose := (hinner.rightParen hheads).optionalSpace
  exact ⟨ts, q'.startsLine, by simpa [Writer.head] using hclose, hts⟩

end Writer

/-! ### Lists -/

section

variable {p : Place} {heads : List Bool} {R : Node → List Sign → Prop} {Q : Node → Pen → Prop}

theorem emitElements_false (p : Place) (e : Option Node) (es : List (Option Node)) (w : Writer) :
    emitElements p false (e :: es) w = emitElements p true (e :: es) (w.write ",").optionalSpace := by
  simp [emitElements]

-- Items that each have a comma in front, and the pen behind the last.
theorem emitItems_spells {ns : List Node} {w : Writer} {ss : List Sign} {q : Pen}
    (h : ∀ n ∈ ns, Emits (n.emit p) heads fun ts _ q' => q'.heads = heads ∧ R n ts ∧ Q n q')
    (hw : w.Spells ss q) (hq : q.heads = heads) :
    ∃ us q', (emitItems p false ns w).Spells (ss ++ us) q' ∧ q'.heads = heads ∧ Commaed R ns us ∧
      (ns = [] → q' = q) ∧ ∀ n ∈ ns.getLast?, Q n q' := by
  induction ns generalizing w ss q
  case nil => exact ⟨[], q, by simpa [emitItems] using hw, hq, rfl, fun _ => rfl, nofun⟩
  case cons n ns ih =>
    obtain ⟨hn, h⟩ := List.forall_mem_cons.mp h
    have hcomma : (write "," _).optionalSpace.Spells _ _ := (hw.mark .comma ⟨rfl, rfl⟩).optionalSpace
    rw [hq] at hcomma
    obtain ⟨ts, q₁, hw₁, hheads, hts, hq₁⟩ := hn hcomma (Pen.behind_waits rfl)
    obtain ⟨us, q₂, hw₂, hheads, hus, hnil, hlast⟩ := ih h hw₁ hheads
    refine ⟨.op .comma q.startsLine :: (ts ++ us), q₂, ?_, hheads, ⟨_, ts, us, rfl, hts, hus⟩, nofun, ?_⟩
    · simpa [emitItems] using hw₂
    · rcases ns with _ | ⟨n', ns⟩
      · simpa [hnil rfl] using hq₁
      · simpa using hlast

theorem emitItems_emits {ns : List Node}
    (h : ∀ n ∈ ns, Emits (n.emit p) heads fun ts _ q' => q'.heads = heads ∧ R n ts) :
    Emits (emitItems p true ns) heads fun us _ q' => q'.heads = heads ∧ Listed R ns us := by
  intro w ss q hw hq
  cases ns
  case nil => exact ⟨[], q, by simpa [emitItems] using hw, hq.heads, rfl⟩
  case cons n ns =>
    obtain ⟨hn, h⟩ := List.forall_mem_cons.mp h
    obtain ⟨ts, q₁, hw₁, hheads, hts⟩ := hn hw hq
    obtain ⟨us, q₂, hw₂, hheads, hus, -⟩ := emitItems_spells (Q := fun _ _ => True)
      (fun n hn => (h n hn).mono fun _ _ _ h => ⟨h.1, h.2, trivial⟩) hw₁ hheads
    exact ⟨ts ++ us, q₂, by simpa [emitItems] using hw₂, hheads, ts, us, rfl, hts, hus⟩

-- Does a list of elements end with a hole?
def endsWithHole (es : List (Option Node)) : Bool :=
  es.getLast?.any Option.isNone

-- A hole at the end is written only with one more comma.
theorem emitElements_emits {es : List (Option Node)}
    (h : ∀ n, some n ∈ es → Emits (n.emit p) heads fun ts _ q' => q'.heads = heads ∧ R n ts) :
    Emits (emitElements p true es) heads fun us _ q' => q'.heads = heads ∧
      ∀ b, Holed R es (us ++ if endsWithHole es then [.op .comma b] else []) := by
  induction es
  case nil =>
    exact fun w ss q hw hq => ⟨[], q, by simpa [emitElements] using hw, hq.heads, fun _ => rfl⟩
  case cons e es ih =>
    have ih := ih fun n hn => h n (.tail _ hn)
    intro w ss q hw hq
    -- What is written for the element, and then for the others.
    have hrest {ts q₁} (hw₁ : (emitOption p e w).Spells (ss ++ ts) q₁) (hheads : q₁.heads = heads)
        (hlast : es = [] → ∀ b, Holed R [e] (ts ++ if endsWithHole [e] then [.op .comma b] else []))
        (hmore : ∀ b vs, Holed R es vs → Holed R (e :: es) (ts ++ .op .comma b :: vs)) :
        ∃ us q', (emitElements p true (e :: es) w).Spells (ss ++ us) q' ∧ q'.heads = heads ∧
          ∀ b, Holed R (e :: es) (us ++ if endsWithHole (e :: es) then [.op .comma b] else []) := by
      rcases es with _ | ⟨e', es⟩
      case nil => exact ⟨ts, q₁, by simpa [emitElements] using hw₁, hheads, hlast rfl⟩
      case cons =>
        have hcomma : (write "," _).optionalSpace.Spells _ _ := (hw₁.mark .comma ⟨rfl, rfl⟩).optionalSpace
        rw [hheads] at hcomma
        obtain ⟨us, q₂, hw₂, hheads, hus⟩ := ih hcomma (Pen.behind_waits rfl)
        refine ⟨ts ++ .op .comma q₁.startsLine :: us, q₂, ?_, hheads, fun b => ?_⟩
        · rw [emitElements, emitElements_false]
          simpa using hw₂
        · have hhole : endsWithHole (e :: e' :: es) = endsWithHole (e' :: es) := by simp [endsWithHole]
          rw [hhole, List.append_assoc, List.cons_append]
          exact hmore _ _ (hus b)
    cases e
    case none =>
      have hnone : (emitOption p none w).Spells (ss ++ []) q := by simpa [emitOption] using hw
      refine hrest hnone hq.heads (fun _ b => ⟨b, [], rfl, rfl⟩)
        fun b vs hvs => ⟨b, vs, rfl, hvs⟩
    case some n =>
      obtain ⟨ts, q₁, hw₁, hheads, hts⟩ := h n (.head _) hw hq
      exact hrest (by simpa [emitOption] using hw₁) hheads
        (fun _ _ => ⟨ts, [], by simp [endsWithHole], hts, .inl ⟨rfl, rfl⟩⟩)
        fun b vs hvs => ⟨ts, _, rfl, hts, .inr ⟨b, vs, rfl, hvs⟩⟩

end

/-! ### Names and functions -/

-- A name that is written as it is.
def IsPrintableName (n : Node) : Prop :=
  ∃ span name, n = .mk span (.identifier name) ∧ IsPrintable name ∧
    (Scanner.word name.toList).kind = .identifier

theorem Scanner.word_marks_of_identifier {text : List Char} (h : (Scanner.word text).kind = .identifier) :
    (Scanner.word text).marks = {} := by
  revert h
  fun_cases Scanner.word text <;> first | exact fun _ => rfl | exact fun h => by cases h

-- What is no expression is never put between parentheses by a place that asks for nothing.
theorem emit_eq_of_not_encloses {p : Place} {span : Span} {form : Form Node} (h : p.encloses form = false) :
    (Node.mk span form).emit p = emitForm p.isBeforeIn p.isHead form := by
  funext w
  rw [Node.emit, h]
  rfl

section

variable {n : Node} {heads : List Bool} {scope : JumpScope}

theorem name_emits (h : IsPrintableName n) (isBeforeIn : Bool) : Emits (n.emit { isBeforeIn }) heads fun ts q q' =>
    q'.heads = heads ∧ IsName n ts ∧ (∀ t ∈ ts.head?, t.startsLine = q.startsLine) ∧
      q'.Waits heads ∧ q'.Rests heads false := by
  obtain ⟨span, name, rfl, hname, hk⟩ := h
  intro w ss q hw hq
  have hhead : opensHead (some (Scanner.word name.toList).kind) = false := by rw [hk]; rfl
  have hmarks : (Scanner.word name.toList).marks.isOperator = false := by
    rw [Scanner.word_marks_of_identifier hk]
    rfl
  rw [emit_eq_of_not_encloses (by cases isBeforeIn <;> rfl), emitForm]
  exact ⟨_, _, hw.word hq hname, rfl, ⟨span, name, _, rfl, rfl, hk⟩, by simp,
    Pen.behindWord_waits hhead, Pen.behindWord_rests hhead hmarks⟩

-- Braces with statements in between, wherever they may stand.
def EmitsBlock (scope : JumpScope) (n : Node) : Prop :=
  ∀ isBeforeIn ⦃w ss q⦄, w.Spells ss q → ∃ us, (n.emit { isBeforeIn } w).Spells
    (ss ++ .op .leftBrace q.startsLine :: us) (.behind .rightBrace q.heads) ∧
    IsBlock scope n (.op .leftBrace q.startsLine :: us)

-- The word in front of an asynchronous function, if it is one.
theorem async_spells {w : Writer} {ss : List Sign} {q : Pen} (h : w.Spells ss q) (hq : q.Waits heads)
    (isAsync : Bool) : ∃ q', (if isAsync then (w.write "async").space else w).Spells
      (ss ++ asyncSigns isAsync q.startsLine) q' ∧ q'.Waits heads ∧ (isAsync = false → q' = q) := by
  cases isAsync
  case false => exact ⟨q, by simpa [asyncSigns] using h, hq, fun _ => rfl⟩
  case true => exact ⟨_, (h.word hq isPrintable_async).space, Pen.behindWord_waits rfl, nofun⟩

theorem star_spells {w : Writer} {ss : List Sign} {q : Pen} {isOpen : Bool} (h : w.Spells ss q)
    (hq : q.Waits heads) (hq' : q.Rests heads isOpen) (isGenerator : Bool) :
    ∃ q', (if isGenerator then w.write "*" else w).Spells
      (ss ++ if isGenerator then [.op .star false] else []) q' ∧ q'.Waits heads := by
  cases isGenerator
  case false => exact ⟨q, by simpa using h, hq⟩
  case true => exact ⟨_, h.operatorBehind hq' .star rfl rfl nofun nofun, Pen.behind_waits rfl⟩

theorem id_spells {w : Writer} {ss : List Sign} {q : Pen} {id : Option Node}
    (hid : ∀ n ∈ id, IsPrintableName n) (h : w.Spells ss q) (hq : q.Waits heads)
    (isBeforeIn : Bool) :
    ∃ vs q', (if id.isSome then emitOption { isBeforeIn } id w.optionalSpace else w).Spells (ss ++ vs) q' ∧
      Maybe IsName id vs ∧ q'.Waits heads := by
  cases id
  case none => exact ⟨[], q, by simpa using h, rfl, hq⟩
  case some n =>
    obtain ⟨ts, q', hw, -, hts, -, hq, -⟩ := name_emits (hid n rfl) isBeforeIn h.optionalSpace hq
    exact ⟨ts, q', hw, hts, hq⟩

theorem function_emits (traits : FunctionTraits) (isBeforeIn : Bool) {id : Option Node} {params : List Node} {body : Node}
    (hid : ∀ n ∈ id, IsPrintableName n) (hparams : ∀ n ∈ params, IsPrintableName n)
    (hbody : EmitsBlock .functionBody body) :
    Emits (Writer.function traits id.isSome (emitOption { isBeforeIn } id)
      (emitItems { isBeforeIn } true params) (body.emit { isBeforeIn })) heads fun ts q q' =>
        q' = .behind .rightBrace heads ∧ ∃ b us, ts = asyncSigns traits.isAsync b ++ us ∧
          (∀ t ∈ ts.head?, t.startsLine = q.startsLine) ∧
          IsFunction traits.isGenerator id params body us := by
  intro w ss q hw hq
  rw [Writer.function]
  obtain ⟨q₁, hw₁, hq₁, hline⟩ := async_spells hw hq traits.isAsync
  have hfunction : (write "function" _).Spells _ _ := hw₁.keyword hq₁ .functionWord
  obtain ⟨q₂, hw₂, hq₂⟩ := star_spells hfunction (Pen.behindKeyword_waits rfl)
    (Pen.behindKeyword_rests rfl (by decide)) traits.isGenerator
  obtain ⟨vs, q₃, hw₃, hvs, hq₃⟩ := id_spells hid hw₂ hq₂ isBeforeIn
  have hopen := hw₃.leftParen
  rw [hq₃.head, hq₃.heads] at hopen
  obtain ⟨us, q₄, hw₄, hheads, hus⟩ := emitItems_emits (R := IsName)
    (fun n hn => (name_emits (hparams n hn) isBeforeIn).mono fun ts q q' h => ⟨h.1, h.2.1⟩) hopen
    (Pen.behind_waits rfl)
  obtain ⟨xs, hw₅, hxs⟩ := hbody isBeforeIn (hw₄.rightParen hheads).optionalSpace
  refine ⟨asyncSigns traits.isAsync q.startsLine ++ .keyword .functionWord q₁.startsLine ::
    ((if traits.isGenerator then [.op .star false] else []) ++ (vs ++ .op .leftParen q₃.startsLine ::
      (us ++ .op .rightParen q₄.startsLine :: .op .leftBrace false :: xs))), _, ?_, rfl, q.startsLine, _, rfl, ?_,
    _, _, _, vs, us, _, _, rfl, rfl, hvs, hus, hxs⟩
  · simpa using hw₅
  · cases hasync : traits.isAsync
    case true => simp [asyncSigns]
    case false => simp [asyncSigns, hline hasync]

end

end ScriptTree
