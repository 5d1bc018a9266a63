import ScriptTree.Proofs.Node.Nesting
import ScriptTree.Proofs.Parse.Follows

/-!
Where the nodes stand that rules read.

The place of a cursor is where the last token ended that was consumed. What a rule reads stands between
the place where it starts and the place where it ends, so what rules read one after the other stands in
a row. The tokens between two cursors are a block of the stream, and each rule closes the brackets that
it opens.
-/

namespace ScriptTree

-- The token ends before the other one starts, and no solid one stands behind the end of input.
structure Token.IsBefore (tokens : List Token) (t u : Token) : Prop where
  span : t.span.stop ≤ u.span.start
  kind : u.IsSolid tokens → t.kind ≠ .endOfInput

-- No bracket is marked as an operator that assigns or has a level.
structure Token.IsMarked (t : Token) : Prop where
  assignment : t.kind.isBracket → t.marks.assignment = false
  level      : t.kind.isBracket → t.marks.level = none

namespace Cursor

-- The tokens that are left to be consumed.
def left (c : Cursor) : List Token :=
  c.ahead.filter Token.isProper

-- The tokens ahead stand in a row behind the place of the cursor.
structure Placed (tokens : List Token) (c : Cursor) : Prop where
  ending : c.ending.kind = .endOfInput
  rests  : ∀ t ∈ c.ahead.head?, ¬t.isTrivia
  solid  : ∀ t ∈ c.ahead, ¬t.isTrivia → t.kind ≠ .endOfInput → t.IsSolid tokens
  order  : c.ahead.Pairwise (Token.IsBefore tokens)
  after  : ∀ t ∈ c.ahead, c.lastStop ≤ t.span.start
  last   : 0 < c.lastStop → ∃ t : Token, t.IsSolid tokens ∧ t.span.stop = c.lastStop
  rest   : ∀ t : Token, t.IsSolid tokens → t.span.stop ≤ c.lastStop ∨ t ∈ c.ahead
  marks  : ∀ t ∈ tokens, t.IsMarked
  stream : c.left <:+ tokens.filter Token.isProper

-- The tokens are those from the one cursor to the other.
structure Block (c : Cursor) (ts : List Token) (c' : Cursor) : Prop where
  left : c.left = ts ++ c'.left
  stop : c'.lastStop = (ts.getLast?.map (·.span.stop)).getD c.lastStop
  le   : c.lastStop ≤ c'.lastStop

-- The current token is of that kind and is consumed on the way from the first cursor to the second.
structure Takes (tokens : List Token) (c : Cursor) (kind : TokenKind) (c' : Cursor) : Prop where
  kind   : c.current.kind = kind
  solid  : c.current.IsSolid tokens
  after  : c.lastStop ≤ c.current.span.start
  proper : c.current.isProper
  marks  : c.current.IsMarked
  block  : c.Block [c.current] c'
  stream : c.left <:+ tokens.filter Token.isProper

variable {tokens ts us : List Token} {c c' c'' : Cursor} {kind : TokenKind}

namespace Block

theorem nil : c.Block [] c :=
  ⟨rfl, rfl, Nat.le_refl _⟩

theorem append (h : c.Block ts c') (h' : c'.Block us c'') : c.Block (ts ++ us) c'' := by
  refine ⟨by rw [h.left, h'.left, List.append_assoc], ?_, Nat.le_trans h.le h'.le⟩
  rw [h'.stop, h.stop, List.getLast?_append]
  cases us.getLast? <;> rfl

end Block

theorem Takes.stop (h : c.Takes tokens kind c') : c'.lastStop = c.current.span.stop :=
  h.block.stop

theorem Takes.lt (h : c.Takes tokens kind c') : c.current.span.start < c'.lastStop :=
  h.stop ▸ h.solid.width

section passOver

variable {consumes : TokenKind → Bool} {behind ahead : List Token} {lastStop : Nat} {ending : Token}
variable {implied : List Nat}

-- What was passed over ends before the place, unless it is trivia.
theorem rest_of_cons {t : Token} {stop : Nat}
    (hr : ∀ u : Token, u.IsSolid tokens → u.span.stop ≤ lastStop ∨ u ∈ t :: ahead)
    (hle : lastStop ≤ stop) (ht : t.IsSolid tokens → t.span.stop ≤ stop) (u : Token)
    (hu : u.IsSolid tokens) : u.span.stop ≤ stop ∨ u ∈ ahead := by
  rcases hr u hu with h | h
  · exact .inl (Nat.le_trans h hle)
  · rcases List.mem_cons.mp h with rfl | h
    · exact .inl (ht hu)
    · exact .inr h

-- What is consumed is no trivia and not the end of input.
theorem passOver_placed (hc : ∀ t : Token, consumes t.kind → ¬t.isTrivia ∧ t.kind ≠ .endOfInput)
    (he : ending.kind = .endOfInput)
    (hs : ∀ t ∈ ahead, ¬t.isTrivia → t.kind ≠ .endOfInput → t.IsSolid tokens)
    (ho : ahead.Pairwise (Token.IsBefore tokens))
    (ha : ∀ t ∈ ahead, lastStop ≤ t.span.start)
    (hl : 0 < lastStop → ∃ t : Token, t.IsSolid tokens ∧ t.span.stop = lastStop)
    (hr : ∀ t : Token, t.IsSolid tokens → t.span.stop ≤ lastStop ∨ t ∈ ahead)
    (hm : ∀ t ∈ tokens, t.IsMarked)
    (hf : ahead.filter Token.isProper <:+ tokens.filter Token.isProper) :
    (passOver consumes behind lastStop ending implied ahead).Placed tokens ∧
      lastStop ≤ (passOver consumes behind lastStop ending implied ahead).lastStop := by
  induction ahead generalizing behind lastStop
  case nil => exact ⟨⟨he, nofun, hs, ho, ha, hl, hr, hm, hf⟩, Nat.le_refl _⟩
  case cons t ahead ih =>
    have ⟨hat, ha⟩ := List.forall_mem_cons.mp ha
    have ⟨hst, hs'⟩ := List.forall_mem_cons.mp hs
    have ⟨hot, ho'⟩ := List.pairwise_cons.mp ho
    have hf' := ((List.suffix_cons t ahead).filter Token.isProper).trans hf
    rw [passOver]
    split
    case isTrue ht =>
      have ht := hst (hc t ht).left (hc t ht).right
      have hstop : lastStop ≤ t.span.stop := Nat.le_trans hat (Nat.le_of_lt ht.width)
      have hplaced {behind} := @ih behind t.span.stop hs' ho' (fun u hu => (hot u hu).span)
        (fun _ => ⟨t, ht, rfl⟩) (rest_of_cons hr hstop fun _ => Nat.le_refl _) hf'
      exact hplaced.imp id (Nat.le_trans hstop)
    case isFalse =>
      split
      case isTrue ht =>
        exact ih hs' ho' ha hl (rest_of_cons hr (Nat.le_refl _) fun h => absurd ht h.significant) hf'
      case isFalse ht =>
        refine ⟨⟨he, ?_, hs, ho, List.forall_mem_cons.mpr ⟨hat, ha⟩, hl, hr, hm, hf⟩, Nat.le_refl _⟩
        rintro _ ⟨⟩
        exact ht

-- The tokens that are consumed are all that are passed over, trivia apart.
theorem passOver_block (hc : ∀ t : Token, consumes t.kind → t.isProper) :
    ∃ ts, ahead.filter Token.isProper =
        ts ++ (passOver consumes behind lastStop ending implied ahead).left ∧
      (passOver consumes behind lastStop ending implied ahead).lastStop =
        (ts.getLast?.map (·.span.stop)).getD lastStop ∧
      ∀ t ∈ ts, consumes t.kind := by
  induction ahead generalizing behind lastStop
  case nil => exact ⟨[], rfl, rfl, nofun⟩
  case cons t ahead ih =>
    rw [passOver]
    split
    case isTrue ht =>
      obtain ⟨ts, hleft, hstop, hts⟩ := @ih (t :: behind) t.span.stop
      refine ⟨t :: ts, ?_, ?_, List.forall_mem_cons.mpr ⟨ht, hts⟩⟩
      · rw [List.filter_cons_of_pos (hc t ht), hleft, List.cons_append]
      · rw [hstop, List.getLast?_cons]
        cases ts.getLast? <;> rfl
    case isFalse =>
      split
      case isTrue ht =>
        rw [List.filter_cons_of_neg (by simp [Token.isProper, ht])]
        exact ih
      case isFalse => exact ⟨[], rfl, rfl, nofun⟩

end passOver

namespace Placed

variable (h : c.Placed tokens)
include h

theorem skipSemicolons : c.skipSemicolons.Placed tokens ∧ c.lastStop ≤ c.skipSemicolons.lastStop :=
  passOver_placed (fun t ht => by simp [Token.isTrivia, beq_iff_eq.mp ht, TokenKind.isTrivia]) h.ending
    h.solid h.order h.after h.last h.rest h.marks h.stream

theorem skipSemicolons_block : ∃ ts, c.Block ts c.skipSemicolons ∧
    ∀ t ∈ ts, t.kind = .operator .semicolon := by
  obtain ⟨ts, hleft, hstop, hts⟩ := @passOver_block (· == .operator .semicolon) c.behind c.ahead
    c.lastStop c.ending c.implied fun t ht => by
      simp [Token.isProper, Token.isTrivia, beq_iff_eq.mp ht, TokenKind.isTrivia]
  exact ⟨ts, ⟨hleft, hstop, h.skipSemicolons.right⟩, fun t ht => beq_iff_eq.mp (hts t ht)⟩

theorem endStatement : c.endStatement.Placed tokens :=
  ⟨h.ending, h.rests, h.solid, h.order, h.after, h.last, h.rest, h.marks, h.stream⟩

theorem advance_takes (hk : c.current.kind ≠ .endOfInput) :
    c.advance.Placed tokens ∧ c.Takes tokens c.current.kind c.advance := by
  cases ha : c.ahead
  case nil =>
    rw [current_eq_head?, ha] at hk
    exact absurd h.ending hk
  case cons t ahead =>
    have hcurrent : c.current = t := by rw [current_eq_head?, ha]; rfl
    have hk : t.kind ≠ .endOfInput := hcurrent ▸ hk
    have hmem : t ∈ c.ahead := ha ▸ .head _
    have htrivia := h.rests t (ha ▸ rfl)
    have ht := h.solid t hmem htrivia hk
    have hproper : t.isProper := by simp [Token.isProper, htrivia, hk]
    have ⟨hot, ho⟩ := List.pairwise_cons.mp (ha ▸ h.order)
    have hstop := Nat.le_trans (h.after t hmem) (Nat.le_of_lt ht.width)
    have hrest := rest_of_cons (ha ▸ h.rest) hstop fun _ => Nat.le_refl _
    have hleft : c.left = t :: ahead.filter Token.isProper := by
      rw [left, ha, List.filter_cons_of_pos hproper]
    rw [advance_of_ne ha hk]
    refine ⟨(passOver_placed (by simp) h.ending (fun u hu => h.solid u (ha ▸ .tail _ hu)) ho
      (fun u hu => (hot u hu).span) (fun _ => ⟨t, ht, rfl⟩) hrest h.marks ?_).left, ?_⟩
    · exact (List.suffix_cons t _).trans (hleft ▸ h.stream)
    obtain ⟨ts, hts, hlast, hno⟩ := @passOver_block (fun _ => false) (t :: c.behind) ahead t.span.stop
      c.ending c.implied nofun
    obtain rfl : ts = [] := List.eq_nil_iff_forall_not_mem.mpr fun u hu => Bool.noConfusion (hno u hu)
    rw [← hcurrent] at *
    exact ⟨rfl, ht, h.after _ hmem, hproper, h.marks _ ht.mem, ⟨hleft.trans (congrArg _ hts), hlast,
      Nat.le_trans hstop (Nat.le_of_eq hlast.symm)⟩, h.stream⟩

theorem advance : c.advance.Placed tokens := by
  by_cases hk : c.current.kind = .endOfInput
  case neg => exact (h.advance_takes hk).left
  case pos =>
    have : c.advance = c := by
      unfold Cursor.advance
      split
      · rfl
      case h_2 t ahead ha =>
        rw [current_eq_head?, ha] at hk
        simp_all
    rwa [this]

-- A solid token behind the place of the cursor is the current one or stands behind it.
theorem current_le {t : Token} (ht : t.IsSolid tokens) (hle : c.lastStop ≤ t.span.start) :
    c.current.IsSolid tokens ∧ c.lastStop ≤ c.current.span.start ∧
      c.current.span.start ≤ t.span.start := by
  have hmem := (h.rest t ht).resolve_left (Nat.not_le_of_lt (Nat.lt_of_le_of_lt hle ht.width))
  cases ha : c.ahead
  case nil => cases ha ▸ hmem
  case cons u ahead =>
    rw [current_eq_head?, ha, List.head?_cons, Option.getD_some]
    rcases List.mem_cons.mp (ha ▸ hmem) with rfl | hmem
    · exact ⟨ht, hle, Nat.le_refl _⟩
    · have hu : u ∈ c.ahead := ha ▸ .head _
      have hut := (List.pairwise_cons.mp (ha ▸ h.order)).left t hmem
      have hsolid := h.solid u hu (h.rests u (ha ▸ rfl)) (hut.kind ht)
      exact ⟨hsolid, h.after u hu, Nat.le_trans (Nat.le_of_lt hsolid.width) hut.span⟩

-- The current token is the first one that is left.
theorem current_of_left {t : Token} (ht : c.left = t :: ts) : c.current = t := by
  have hmem : t ∈ c.left := ht ▸ .head _
  have ⟨hahead, hproper⟩ := List.mem_filter.mp hmem
  simp only [Token.isProper, Bool.and_eq_true, Bool.not_eq_true', bne_iff_ne, ne_eq] at hproper
  rw [current_eq_head?]
  cases ha : c.ahead
  case nil => cases ha ▸ hahead
  case cons u ahead =>
    rw [List.head?_cons, Option.getD_some]
    rcases List.mem_cons.mp (ha ▸ hahead) with rfl | hmem
    · rfl
    · have hsolid := h.solid t hahead (by simp [hproper.left]) hproper.right
      have hk := ((List.pairwise_cons.mp (ha ▸ h.order)).left t hmem).kind hsolid
      have hu : u.isProper := by simp [Token.isProper, h.rests u (ha ▸ rfl), hk]
      rw [left, ha, List.filter_cons_of_pos hu] at ht
      exact (List.cons.inj ht).left

theorem head?_of_block (hb : c.Block ts c') (hne : ts ≠ []) : ts.head? = some c.current := by
  cases ts
  case nil => exact absurd rfl hne
  case cons t ts => rw [h.current_of_left hb.left, List.head?_cons]

end Placed

/-! ### Stretches -/

-- On the way from one cursor to the other these nodes are read. The open brackets wait for `w` before and
-- for `w'` behind.
structure Stretch (tokens : List Token) (c : Cursor) (w : List TokenKind) (ns : List Node)
    (w' : List TokenKind) (c' : Cursor) : Prop where
  row   : Row tokens c.lastStop ns c'.lastStop
  block : ∃ ts, c.Block ts c' ∧ nesting? w ts = some w'

-- One node is read on the way. Parentheses may stand around it.
structure Covers (tokens : List Token) (c : Cursor) (n : Node) (c' : Cursor) : Prop where
  row    : Row tokens c.lastStop [n] c'.lastStop
  block  : ∃ opening inner closing, c.Block (opening ++ inner ++ closing) c' ∧
    n.span.Framed opening inner closing
  stream : c.left <:+ tokens.filter Token.isProper

-- The node that is read is one token.
structure CoversToken (tokens : List Token) (c : Cursor) (n : Node) (c' : Cursor) : Prop where
  takes : c.Takes tokens c.current.kind c'
  plain : c.current.kind.isBracket = false
  span  : n.span = c.current.span
  nests : n.Nests tokens

variable {w w' w'' : List TokenKind} {ns ms : List Node} {n : Node}

namespace Stretch

theorem nil : Stretch tokens c w [] w c :=
  ⟨.nil (Nat.le_refl _), [], .nil, rfl⟩

theorem append (h : Stretch tokens c w ns w' c') (h' : Stretch tokens c' w' ms w'' c'') :
    Stretch tokens c w (ns ++ ms) w'' c'' :=
  have ⟨_, hts, hw⟩ := h.block
  have ⟨_, hus, hw'⟩ := h'.block
  ⟨h.row.append h'.row, _, hts.append hus, (nesting?_append hw).trans hw'⟩

-- Brackets further out may be open on the whole way.
theorem under (h : Stretch tokens c w ns w' c') (u : List TokenKind) :
    Stretch tokens c (w ++ u) ns (w' ++ u) c' :=
  have ⟨_, hts, hw⟩ := h.block
  ⟨h.row, _, hts, nesting?_under hw u⟩

end Stretch

theorem Takes.stretch (h : c.Takes tokens kind c') (hk : kind.await? w = some w') :
    Stretch tokens c w [] w' c' :=
  ⟨.nil h.block.le, _, h.block, nesting?_cons (h.kind ▸ hk)⟩

theorem Stretch.skip (h : Stretch tokens c w ns w' c') (ht : c'.Takes tokens kind c'')
    (hk : kind.await? w' = some w'') : Stretch tokens c w ns w'' c'' :=
  List.append_nil ns ▸ h.append (ht.stretch hk)

theorem Covers.stretch (h : Covers tokens c n c') : Stretch tokens c w [n] w c' :=
  have ⟨_, _, _, hts, hf⟩ := h.block
  Stretch.under ⟨h.row, _, hts, hf.balanced⟩ w

-- The parentheses leave no node. They are around the tokens that the node covers.
theorem Covers.enclosed {c₁ c₂ : Cursor}
    (h : c.Takes tokens (.operator .leftParen) c₁) (hn : Covers tokens c₁ n c₂)
    (h' : c₂.Takes tokens (.operator .rightParen) c') : Covers tokens c n c' := by
  obtain ⟨opening, inner, closing, hts, hf⟩ := hn.block
  have happend : c.current :: (opening ++ inner ++ closing ++ [c₂.current]) =
      (c.current :: opening) ++ inner ++ (closing ++ [c₂.current]) := by simp
  refine ⟨(hn.row.lower h.block.le).upper h'.block.le, ⟨c.current :: opening, inner,
    closing ++ [c₂.current], happend ▸ h.block.append (hts.append h'.block), ?_⟩, h.stream⟩
  refine ⟨?_, List.forall_mem_cons.mpr ⟨h.kind, hf.opening⟩, fun t ht => ?_, hf.first, hf.last⟩
  · have hopen : c.current.kind.await? [] = some [.operator .rightParen] := by rw [h.kind]; rfl
    have hclose : c₂.current.kind.await? [.operator .rightParen] = some [] := by rw [h'.kind]; rfl
    have hw := nesting?_under hf.balanced [.operator .rightParen]
    rw [← happend, Balanced, nesting?_cons hopen]
    exact (nesting?_append hw).trans (nesting?_cons hclose)
  · rcases List.mem_append.mp ht with ht | ht
    · exact hf.closing t ht
    · exact List.mem_singleton.mp ht ▸ h'.kind

theorem Covers.nests (h : Covers tokens c n c') : n.Nests tokens :=
  h.row.nests

namespace CoversToken

variable (h : CoversToken tokens c n c')
include h

theorem framed : n.span.Framed [] [c.current] [] :=
  ⟨nesting?_cons (TokenKind.await?_of_not_isBracket h.plain), nofun, nofun, h.span ▸ rfl, h.span ▸ rfl⟩

theorem covers : Covers tokens c n c' :=
  ⟨.singleton h.nests (h.span ▸ h.takes.after) (h.span ▸ Nat.le_of_eq h.takes.stop.symm),
    ⟨[], [c.current], [], h.takes.block, h.framed⟩, h.takes.stream⟩

end CoversToken

-- A node that is built of a block of tokens.
theorem Covers.of_block {span : Span} {form : Form Node} {opening inner closing : List Token}
    (hs : c.left <:+ tokens.filter Token.isProper) (hb : c.Block (opening ++ inner ++ closing) c')
    (hf : span.Framed opening inner closing)
    (hfirst : ∃ t : Token, t.IsSolid tokens ∧ t.span.start = span.start)
    (hlast : ∃ t : Token, t.IsSolid tokens ∧ t.span.stop = span.stop)
    (hlow : c.lastStop ≤ span.start) (hlt : span.start < span.stop) (hhigh : span.stop ≤ c'.lastStop)
    (hrow : Row tokens span.start form.nodes span.stop) (htext : form.text? = none)
    (hstarts : opening ≠ [] → form.startsWithOperand) (hends : closing ≠ [] → form.endsWithOperand) :
    Covers tokens c (.mk span form) c' := by
  have hstream := (hb.left ▸ List.prefix_append (opening ++ inner ++ closing) c'.left).isInfix.trans
    hs.isInfix
  have hframed : form.IsFramed tokens span := ⟨_, _, _, hf, hstream, hstarts, hends⟩
  exact ⟨.singleton (.node hfirst hlast hlt htext hframed hrow) hlow hhigh, ⟨_, _, _, hb, hf⟩, hs⟩

end Cursor

open Cursor

namespace Rule

variable {α β : Type} {tokens : List Token}

-- If the rule has a result from `c` on, then `Q` holds of the result and of the cursor behind it.
def Spans (tokens : List Token) (r : Rule α) (c : Cursor) (Q : α → Cursor → Prop) : Prop :=
  c.Placed tokens → match r.run c with
    | .ok (a, c') => c'.Placed tokens ∧ Q a c'
    | .error _ => True

namespace Spans

variable {r : Rule α} {f : α → Rule β} {c : Cursor} {Q : α → Cursor → Prop} {S : β → Cursor → Prop}
variable {kind : TokenKind}

theorem pure {a : α} (h : Q a c) : Spans tokens (pure a) c Q :=
  fun hc => ⟨hc, h⟩

theorem bind (hr : Spans tokens r c Q) (hf : ∀ a c', Q a c' → Spans tokens (f a) c' S) :
    Spans tokens (r >>= f) c S := by
  intro hc
  have hr := hr hc
  rw [StateT.run_bind]
  rcases hrun : r.run c with _ | ⟨a, c'⟩
  case error => trivial
  case ok =>
    rw [hrun] at hr
    exact hf a c' hr.right hr.left

theorem mono {Q' : α → Cursor → Prop} (hr : Spans tokens r c Q) (h : ∀ a c', Q a c' → Q' a c') :
    Spans tokens r c Q' := by
  intro hc
  have hr := hr hc
  rcases hrun : r.run c with _ | ⟨a, c'⟩ <;> simp only [hrun] at hr ⊢
  exact ⟨hr.left, h a c' hr.right⟩

theorem map {g : α → β} (hr : Spans tokens r c fun a c' => S (g a) c') :
    Spans tokens (g <$> r) c S := by
  rw [← bind_pure_comp]
  exact hr.bind fun a c' h => .pure h

theorem map_bind {γ : Type} {g : α → γ} {f : γ → Rule β}
    (h : Spans tokens (r >>= fun a => f (g a)) c S) : Spans tokens (g <$> r >>= f) c S := by
  rwa [bind_map_left]

theorem throw {stop : Stop} : Spans tokens (throw stop : Rule α) c Q :=
  fun _ => trivial

theorem fail {error : ParseError} : Spans tokens (fail error : Rule α) c Q :=
  fun _ => trivial

theorem unexpected : Spans tokens (unexpected : Rule α) c Q :=
  fun _ => trivial

theorem congr_run {x : Rule α} (hx : x.run c = r.run c) (h : Spans tokens r c Q) :
    Spans tokens x c Q := by
  unfold Spans
  rwa [hx]

theorem of_placed (h : c.Placed tokens → Spans tokens r c Q) : Spans tokens r c Q :=
  fun hc => h hc hc

/-! ### Looking -/

theorem read {τ : Type} {x : Rule τ} {v : Cursor → τ} {f : τ → Rule β}
    (hx : ∀ c, x.run c = .ok (v c, c)) (hf : Spans tokens (f (v c)) c S) :
    Spans tokens (x >>= f) c S :=
  congr_run (Follows.run_read hx f c) hf

theorem current {f : Token → Rule β} (hf : Spans tokens (f c.current) c S) :
    Spans tokens (Rule.current >>= f) c S :=
  read (fun _ => rfl) hf

theorem start {f : Nat → Rule β} (hf : Spans tokens (f c.current.span.start) c S) :
    Spans tokens (Rule.start >>= f) c S :=
  read (fun _ => rfl) hf

theorem isAfterLineBreak {f : Bool → Rule β} (hf : ∀ b, Spans tokens (f b) c S) :
    Spans tokens (Rule.isAfterLineBreak >>= f) c S :=
  read (fun _ => rfl) (hf _)

-- A rule that is one of two others, as the cursor says.
theorem run_ite {x y z : Rule α} {b : Cursor → Bool}
    (hx : x.run c = if b c then y.run c else z.run c) (hy : b c = true → Spans tokens y c Q)
    (hz : b c = false → Spans tokens z c Q) : Spans tokens x c Q := by
  cases h : b c
  case true => exact congr_run (by rw [hx, h]; rfl) (hy h)
  case false => exact congr_run (by rw [hx, h]; rfl) (hz h)

theorem check_ite {x y : Rule α} (hx : c.current.kind = kind → Spans tokens x c Q)
    (hy : c.current.kind ≠ kind → Spans tokens y c Q) :
    Spans tokens (Rule.check kind >>= fun b => if b then x else y) c Q := by
  refine read (fun _ => rfl) ?_
  split
  case isTrue h => exact hx (beq_iff_eq.mp h)
  case isFalse h => exact hy (by simpa using h)

theorem isAtEnd_ite {x y : Rule α} (hx : Spans tokens x c Q) (hy : Spans tokens y c Q) :
    Spans tokens (Rule.isAtEnd >>= fun b => if b then x else y) c Q :=
  check_ite (fun _ => hx) fun _ => hy

/-! ### Consuming -/

-- The current token is consumed, unless it is the end of input.
theorem advance_bind {f : Token → Rule β}
    (hf : ∀ c', (c.current.kind ≠ .endOfInput → c.Takes tokens c.current.kind c') →
      Spans tokens (f c.current) c' S) : Spans tokens (Rule.advance >>= f) c S := by
  intro hc
  rw [show (Rule.advance >>= f).run c = (f c.current).run c.advance from Follows.run_bind_of_ok rfl]
  exact hf c.advance (fun hk => (hc.advance_takes hk).right) hc.advance

theorem advance (h : c.current.kind = kind) (hk : kind ≠ .endOfInput) :
    Spans tokens Rule.advance c fun t c' => t = c.current ∧ c.Takes tokens kind c' :=
  fun hc => ⟨hc.advance, rfl, h ▸ (hc.advance_takes (h ▸ hk)).right⟩

theorem skip_bind {f : Rule β} (h : c.current.kind = kind) (hk : kind ≠ .endOfInput)
    (hf : ∀ c', c.Takes tokens kind c' → Spans tokens f c' S) :
    Spans tokens (discard Rule.advance >>= fun _ => f) c S :=
  map_bind ((advance h hk).bind fun _ c' h => hf c' h.right)

theorem expect (hk : kind ≠ .endOfInput) :
    Spans tokens (Rule.expect kind) c fun t c' => t = c.current ∧ c.Takes tokens kind c' :=
  check_ite (fun h => advance h hk) fun _ => unexpected

-- The next token must be of a kind, and is consumed.
theorem expecting {f : Rule β} (hk : kind ≠ .endOfInput)
    (hf : ∀ c', c.Takes tokens kind c' → Spans tokens f c' S) :
    Spans tokens (discard (Rule.expect kind) >>= fun _ => f) c S :=
  map_bind ((expect hk).bind fun _ c' h => hf c' h.right)

-- A branch on the kind of the current token, which is consumed if it is the one that is asked for.
theorem accept_ite {y z : Rule β} (hk : kind ≠ .endOfInput)
    (hy : ∀ c', c.Takes tokens kind c' → Spans tokens y c' S)
    (hz : c.current.kind ≠ kind → Spans tokens z c S) :
    Spans tokens (Rule.accept kind >>= fun b => if b then y else z) c S := by
  rw [Follows.accept_bind_ite]
  exact check_ite (fun h => skip_bind h hk hy) hz

theorem accept (hk : kind ≠ .endOfInput) {w : List TokenKind} (hw : kind.await? w = some w) :
    Spans tokens (Rule.accept kind) c fun _ c' => Stretch tokens c w [] w c' :=
  check_ite (fun h => skip_bind h hk fun _ h => .pure (h.stretch hw)) fun _ => .pure .nil

-- A loop keeps what each of its rounds keeps.
theorem loop {I : α → Cursor → Prop} {round : α → Rule (Round α β)}
    (hround : ∀ a c, I a c → Spans tokens (round a) c fun r c' =>
      match r with
      | .again a' => I a' c'
      | .finish b => S b c')
    {limit : Nat} {a : α} (ha : I a c) : Spans tokens (Rule.loop limit round a) c S := by
  induction limit generalizing a c
  case zero => exact throw
  case succ limit ih =>
    refine (hround a c ha).bind fun r c' h => ?_
    cases r
    case again => exact ih h
    case finish => exact .pure h

-- Only semicolons are consumed.
theorem terminator : Spans tokens Rule.terminator c fun _ c' => Stretch tokens c [] [] [] c' := by
  intro hc
  by_cases hk : c.current.kind = .operator .semicolon
  case pos =>
    rw [Follows.terminator_run_of_semicolon hk]
    obtain ⟨ts, hts, hkinds⟩ := hc.skipSemicolons_block
    refine ⟨hc.skipSemicolons.left, .nil hts.le, ts, hts, ?_⟩
    exact balanced_of_not_isBracket fun t ht => by rw [hkinds t ht]; rfl
  case neg =>
    rw [Follows.terminator_run_of_ne hk]
    cases Follows.endsStatement c
    case true => exact ⟨hc.endStatement, .nil (Nat.le_refl _), [], ⟨rfl, rfl, Nat.le_refl _⟩, rfl⟩
    case false => trivial

/-! ### Nodes -/

section node

variable {start : Nat} {form : Form Node} {ns : List Node} {object : Node} {c₀ c₁ c₂ : Cursor}
variable {w : List TokenKind} {inner : List Token}

-- A span that starts with the first of the inner tokens and ends where the cursor stands.
theorem spanFrom (opening : List Token) (ns : List Node) {f : Span → Rule β}
    (hs : c₀.left <:+ tokens.filter Token.isProper)
    (hb : c₀.Block (opening ++ inner) c) (hbalanced : Balanced (opening ++ inner))
    (hopening : ∀ t ∈ opening, t.kind = .operator .leftParen)
    (hstart : inner.head?.map (·.span.start) = some start)
    (hfirst : ∃ t : Token, t.IsSolid tokens ∧ t.span.start = start) (hlow : c₀.lastStop ≤ start)
    (hlt : start < c.lastStop) (hrow : Row tokens start ns c.lastStop)
    (hf : ∀ span : Span, span.start = start → (∀ {form : Form Node}, form.nodes = ns →
      form.text? = none → (opening ≠ [] → form.startsWithOperand) →
      Covers tokens c₀ (.mk span form) c) → Spans tokens (f span) c S) :
    Spans tokens (Rule.spanFrom start >>= f) c S := by
  refine read (v := fun c => ⟨start, max c.lastStop start⟩) (fun _ => rfl) fun hc => hf _ rfl ?_ hc
  rintro form rfl htext hstarts
  rw [Nat.max_eq_left (Nat.le_of_lt hlt)]
  have hlast : inner.getLast?.map (·.span.stop) = some c.lastStop := by
    have hne : inner ≠ [] := by rintro rfl; cases hstart
    rw [hb.stop, List.getLast?_append, List.getLast?_eq_some_getLast hne]
    rfl
  rw [← List.append_nil (opening ++ inner)] at hb hbalanced
  exact .of_block hs hb ⟨hbalanced, hopening, nofun, hstart, hlast⟩ hfirst
    (hc.last (Nat.zero_lt_of_lt hlt)) hlow hlt (Nat.le_refl _) hrow htext hstarts (absurd rfl)

-- Its first token was consumed before the children were read.
theorem spanFrom_token {f : Span → Rule β} (ht : c₁.Takes tokens kind c₂)
    (hw : kind.await? [] = some w) (hs : Stretch tokens c₂ w ns [] c)
    (hf : ∀ span : Span, span.start = c₁.current.span.start → (∀ {form : Form Node},
      form.nodes = ns → form.text? = none → Covers tokens c₁ (.mk span form) c) →
      Spans tokens (f span) c S) :
    Spans tokens (Rule.spanFrom c₁.current.span.start >>= f) c S := by
  obtain ⟨ts, hts, hnesting⟩ := hs.block
  exact spanFrom [] ns ht.stream (ht.block.append hts) ((nesting?_cons (ht.kind ▸ hw)).trans hnesting)
    nofun rfl ⟨_, ht.solid, rfl⟩ ht.after (Nat.lt_of_lt_of_le ht.lt hts.le)
    (hs.row.lower (Nat.le_of_lt ht.lt)) fun span hstart hspan =>
      hf span hstart fun hn htext => hspan hn htext (absurd rfl)

theorem node (ht : c₁.Takes tokens kind c₂) (hw : kind.await? [] = some w)
    (hs : Stretch tokens c₂ w ns [] c) (hn : form.nodes = ns) (htext : form.text? = none) :
    Spans tokens (do return .mk (← Rule.spanFrom c₁.current.span.start) form) c (Covers tokens c₁) :=
  spanFrom_token ht hw hs fun _ _ hspan => .pure (hspan hn htext)

-- The node starts with its first child, which was read already.
theorem extended (ho : Covers tokens c₀ object c₁) (hs : Stretch tokens c₁ [] ns [] c)
    (hn : form.nodes = object :: ns) (htext : form.text? = none)
    (hstarts : form.startsWithOperand) :
    Spans tokens (do return .mk (← Rule.spanFrom object.span.start) form) c (Covers tokens c₀) := by
  obtain ⟨opening, inner, closing, hblock, hf⟩ := ho.block
  obtain ⟨ts, hts, hnesting⟩ := hs.block
  have hobject := ho.nests
  have hlt := Nat.lt_of_lt_of_le hobject.width (Nat.le_trans ho.row.stop_le hts.le)
  have happend : opening ++ inner ++ closing ++ ts = opening ++ (inner ++ (closing ++ ts)) := by simp
  have hbalanced : Balanced (opening ++ inner ++ closing ++ ts) :=
    (nesting?_append hf.balanced).trans hnesting
  refine spanFrom opening (object :: ns) ho.stream (happend ▸ hblock.append hts) (happend ▸ hbalanced)
    hf.opening ?_ hobject.first ho.row.start_ge hlt ?_ fun _ _ hspan =>
      .pure (hspan hn htext fun _ => hstarts)
  · have hne : inner ≠ [] := by rintro rfl; cases hf.first
    rw [List.head?_append_of_ne_nil _ hne, hf.first]
  · exact .cons (Nat.le_refl _) hobject (hs.row.lower ho.row.stop_le)

-- The first child is one token.
theorem named {name : Node} (hl : CoversToken tokens c₁ name c₂) (hs : Stretch tokens c₂ [] ns [] c)
    (hn : form.nodes = name :: ns) (htext : form.text? = none) :
    Spans tokens (do return .mk (← Rule.spanFrom name.span.start) form) c (Covers tokens c₁) := by
  obtain ⟨ts, hts, hnesting⟩ := hs.block
  have ht := hl.takes
  rw [hl.span]
  refine spanFrom [] (name :: ns) ht.stream (ht.block.append hts) ?_ nofun rfl ⟨_, ht.solid, rfl⟩
    ht.after (Nat.lt_of_lt_of_le ht.lt hts.le) ?_ fun _ _ hspan => .pure (hspan hn htext (absurd rfl))
  · exact (nesting?_cons (TokenKind.await?_of_not_isBracket hl.plain)).trans hnesting
  · refine .cons (Nat.le_of_eq (hl.span ▸ rfl)) hl.nests (hs.row.lower ?_)
    exact hl.span ▸ Nat.le_of_eq ht.stop.symm

-- A node that is one token.
theorem token {t : Token} (ht : t = c₁.current ∧ c₁.Takes tokens kind c)
    (hk : kind.isBracket = false) (hn : form.nodes = []) (htext : ∀ text ∈ form.text?, t.value = text) :
    CoversToken tokens c₁ (.mk t.span form) c := by
  obtain ⟨rfl, ht⟩ := ht
  have hplain := ht.kind ▸ hk
  exact ⟨ht.kind ▸ ht, hplain, rfl, .leaf ht.solid ht.proper hplain hn htext⟩

end node

end Spans

end Rule
end ScriptTree
