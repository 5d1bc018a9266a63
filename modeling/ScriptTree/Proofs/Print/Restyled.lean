import Mathlib.Data.Option.Basic
import ScriptTree.Proofs.Print.Braces
import ScriptTree.Proofs.Print.Settled
import ScriptTree.Proofs.Token.Unclosed

/-!
Members of objects that are printed in another style than the one they are read in.

A name behind a dot can be printed as a string in brackets, and such a string as a name behind a dot. So what
is printed is the text of another tree; and that is the tree that is read.
-/

namespace ScriptTree

open Character Relator Writer

/-! ### Names in strings -/

-- Can it stand behind a dot?
def isPlainName (name : List Char) : Bool :=
  name.head?.any (fun c => isLetter c || c == '_' || c == '$') && name.all isPrintedWord

-- The text between the quotes of a string literal, if it is such a name.
def plainContent? (raw : String) : Option String :=
  let content := raw.toList.tail.dropLast
  if (['"', '\''].any fun quote => raw.toList == quote :: (content ++ [quote])) && isPlainName content then
    some (String.ofList content)
  else none

theorem plainContent?_eq_some {raw name : String} : plainContent? raw = some name ↔
    ∃ quote ∈ ['"', '\''], raw.toList = quote :: (name.toList ++ [quote]) ∧ isPlainName name.toList := by
  simp only [plainContent?, Option.ite_none_right_eq_some, Bool.and_eq_true, List.any_eq_true, beq_iff_eq]
  constructor
  case mp =>
    rintro ⟨⟨⟨quote, hquote, hraw⟩, hname⟩, heq⟩
    cases heq
    rw [String.toList_ofList]
    exact ⟨quote, hquote, hraw, hname⟩
  case mpr =>
    rintro ⟨quote, hquote, hraw, hname⟩
    have hcontent : raw.toList.tail.dropLast = name.toList := by simp [hraw]
    rw [hcontent]
    exact ⟨⟨⟨quote, hquote, hraw⟩, hname⟩, congrArg some String.ofList_toList⟩

theorem isPrintable_of_isPlainName {name : String} (h : isPlainName name.toList) : IsPrintable name := by
  obtain ⟨hhead, hall⟩ := Bool.and_eq_true_iff.mp h
  obtain ⟨c, hc, hletter⟩ := (Option.any_eq_true ..).mp hhead
  refine ⟨fun hnil => by simp [hnil] at hc, List.all_eq_true.mp hall, fun d hd => ?_⟩
  obtain rfl : c = d := Option.some.inj (hc.symm.trans hd)
  by_contra hdigit
  rw [Bool.not_eq_false] at hdigit
  exact not_isLetter_of_isDigit hdigit hletter

namespace Node

def plainContent? (n : Node) : Option String :=
  match n.form with
  | .literal .string raw => ScriptTree.plainContent? raw
  | _                    => none

end Node

theorem isPrintable_of_plainContent? {n : Node} {name : String} (h : n.plainContent? = some name) :
    IsPrintable name := by
  unfold Node.plainContent? at h
  split at h
  case h_1 =>
    obtain ⟨_, _, _, hname⟩ := plainContent?_eq_some.mp h
    exact isPrintable_of_isPlainName hname
  case h_2 => cases h

-- The printer takes any two characters of one byte for the quotes. In a string that is closed they are.
theorem dotName?_eq {span : Span} {raw : String} {quote : Char} {content : List Char}
    (hquote : quote = '"' ∨ quote = '\'') (hraw : raw.toList = quote :: (content ++ [quote])) :
    dotName? (.mk span (.literal .string raw)) = Node.plainContent? (.mk span (.literal .string raw)) := by
  have hsize : quote.utf8Size = 1 := by rcases hquote with rfl | rfl <;> decide
  unfold dotName? Node.plainContent? plainContent?
  simp [Node.form, hraw, hsize, hquote, isPlainName]

/-! ### The tree in another style -/

-- Rewrites the property that is accessed, if it can be written in the style.
def Form.restyle (style : MemberStyle) : Form Node → Form Node
  | .memberExpression object member isComputed isOptional =>
    match style, isComputed, member.plainContent?, member.identifierName? with
    | .dot, true, some name, _ =>
      .memberExpression object (.mk member.span (.identifier name)) false isOptional
    | .bracket, false, _, some name =>
      .memberExpression object (.mk member.span (.literal .string ("\"" ++ name ++ "\""))) true isOptional
    | _, _, _, _ => .memberExpression object member isComputed isOptional
  | form => form

namespace Node

variable {style : MemberStyle}

-- The tree with its members in the style.
def restyled (style : MemberStyle) : Node → Node :=
  fold fun n form => .mk n.span (form.restyle style)

theorem restyled_mk (span : Span) (form : Form Node) :
    (mk span form).restyled style = .mk span ((form.map (restyled style)).restyle style) :=
  fold_eq _ _

-- A member stays a member of the same object.
theorem restyle_memberExpression (style : MemberStyle) (object member : Node) (isComputed isOptional : Bool) :
    ∃ member' isComputed', (Form.memberExpression object member isComputed isOptional).restyle style =
      .memberExpression object member' isComputed' isOptional := by
  unfold Form.restyle
  dsimp only
  split <;> exact ⟨_, _, rfl⟩

-- What can be written in the style only as it is stays so.
theorem restyle_eq_self {object member : Node} {isComputed isOptional : Bool}
    (hdot : style = .dot → isComputed → member.plainContent? = none)
    (hbracket : style = .bracket → isComputed = false → member.identifierName? = none) :
    (Form.memberExpression object member isComputed isOptional).restyle style =
      .memberExpression object member isComputed isOptional := by
  unfold Form.restyle
  dsimp only
  split
  case h_1 hplain => cases (hdot rfl rfl).symm.trans hplain
  case h_2 hname => cases (hbracket rfl rfl).symm.trans hname
  case h_3 => rfl

theorem restyle_of_not_isMember {form : Form Node} (h : ¬form.isMember) : form.restyle style = form := by
  cases form
  case memberExpression => exact absurd rfl h
  all_goals rfl

theorem resembles_restyled (style : MemberStyle) (n : Node) : (n.restyled style).Resembles n := by
  induction n using induct_nodes
  case h span form ih =>
    rw [restyled_mk]
    cases form
    case memberExpression object member isComputed isOptional =>
      have hobject := ih object (by simp [Form.slots])
      obtain ⟨member', isComputed', heq⟩ := restyle_memberExpression style (object.restyled style)
        (member.restyled style) isComputed isOptional
      rw [Form.map, heq]
      exact ⟨rfl, hobject.startsLikeStatement, rfl, hobject.isPlainMemberChain, rfl, rfl, rfl, rfl, rfl, rfl,
        rfl, fun _ => rfl⟩
    all_goals exact .map ih span

theorem plainContent?_restyled (n : Node) : (n.restyled style).plainContent? = n.plainContent? := by
  obtain ⟨span, form⟩ := n
  rw [restyled_mk]
  cases form
  case memberExpression object member isComputed isOptional =>
    obtain ⟨member', isComputed', heq⟩ := restyle_memberExpression style (object.restyled style)
      (member.restyled style) isComputed isOptional
    rw [Form.map, heq]
    rfl
  all_goals rfl

end Node

/-! ### What is printed -/

namespace Writer

variable {style : MemberStyle} {w v : Writer} {piece piece' : String}

theorem flush_breaks (w : Writer) : w.flush.breaks = false := by
  by_cases hb : w.breaks ∧ w.written ≠ []
  case pos =>
    obtain ⟨gap, -, hflush⟩ := flush_of_breaks hb.1 hb.2
    rw [hflush]
  case neg => rw [flush_of_not_breaks hb]

-- Two pieces that do not merge are written as one.
theorem write_write (hne : piece ≠ "")
    (h : ∀ c ∈ piece.toList.getLast?, ∀ d ∈ piece'.toList.head?, merges c d = false) (w : Writer) :
    (w.write piece).write piece' = w.write (piece ++ piece') := by
  have hne : piece.toList ≠ [] := fun hnil => hne (String.toList_eq_nil_iff.mp hnil)
  obtain ⟨first, rest, hp⟩ := List.exists_cons_of_ne_nil hne
  have happend : (piece ++ piece').toList = first :: (rest ++ piece'.toList) := by simp [hp]
  rcases hp' : piece'.toList with _ | ⟨d, rest'⟩
  case nil => rw [String.toList_eq_nil_iff.mp hp', String.append_empty, write, String.toList_empty]
  case cons =>
    have hlast := List.getLast?_eq_some_getLast hne
    have hhead (text : List Char) : (piece.toList.reverse ++ text).head? = some (piece.toList.getLast hne) := by
      rw [List.head?_append, List.head?_reverse, hlast]
      rfl
    have hmerges : merges (piece.toList.getLast hne) d = false := h _ hlast d (by rw [hp']; rfl)
    have hbreaks : (w.write piece).breaks = false := by
      rw [write_eq_of_cons hp]
      exact w.flush_breaks
    rw [write_eq_of_cons hp', flush_eq_self hbreaks, write_eq_of_cons hp, write_eq_of_cons happend]
    simp [separator, last?, hhead, hmerges, List.append_assoc]

theorem merges_quote_left (c : Char) : merges '"' c = false := by
  have hquote : isPrintedWord '"' = false := not_isPrintedWord_of_structural _ (by decide)
  simp [merges, hquote]

theorem merges_closing (c : Char) : merges c '"' = false ∧ merges c ']' = false := by
  have hword : isPrintedWord '"' = false ∧ isPrintedWord ']' = false :=
    ⟨not_isPrintedWord_of_structural _ (by decide), not_isPrintedWord_of_structural _ (by decide)⟩
  simp [merges, hword]

-- A name between brackets and quotes is written like the literal between the brackets.
theorem write_quoted (name : String) (w : Writer) :
    ((w.write "[\"").write name).write "\"]" = ((w.write "[").write ("\"" ++ name ++ "\"")).write "]" := by
  have htext : "[\"" ++ name ++ "\"]" = "[" ++ ("\"" ++ name ++ "\"") ++ "]" :=
    String.toList_injective (by simp)
  calc ((w.write "[\"").write name).write "\"]"
    _ = (w.write ("[\"" ++ name)).write "\"]" := by
      have hopen : ∀ c ∈ ("[\"" : String).toList.getLast?, ∀ d ∈ name.toList.head?, merges c d = false := by
        rintro c ⟨⟩ d -
        exact merges_quote_left d
      rw [write_write (by decide) hopen]
    _ = w.write ("[\"" ++ name ++ "\"]") := by
      refine write_write (by simp) (fun c _ d hd => ?_) w
      cases hd
      exact (merges_closing c).1
    _ = (w.write ("[" ++ ("\"" ++ name ++ "\""))).write "]" := by
      rw [htext]
      refine (write_write (by simp) (fun c _ d hd => ?_) w).symm
      cases hd
      exact (merges_closing c).2
    _ = ((w.write "[").write ("\"" ++ name ++ "\"")).write "]" := by
      have hopen : ∀ c ∈ ("[" : String).toList.getLast?, ∀ d ∈ ("\"" ++ name ++ "\"").toList.head?,
          merges c d = false := by
        intro c _ d hd
        have hd : d = '"' := by simpa using hd.symm
        exact hd ▸ (merges_closing c).1
      rw [write_write (by decide) hopen]

-- The same writer with the style and without.
def IsStyled (style : MemberStyle) (w v : Writer) : Prop :=
  IsRestyled .asIs w v ∧ IsRestyled style v w

theorem IsStyled.isKept : IsKept (fun _ => True) False (IsStyled style) where
  visible _ := trivial
  write _ h := ⟨h.1.write _, h.2.write _⟩
  space h := ⟨h.1.space, h.2.space⟩
  optionalSpace h := ⟨IsRestyled.isKept.optionalSpace h.1, IsRestyled.isKept.optionalSpace h.2⟩
  newline h := ⟨IsRestyled.isKept.newline h.1, IsRestyled.isKept.newline h.2⟩
  indent h := ⟨IsRestyled.isKept.indent h.1, IsRestyled.isKept.indent h.2⟩
  dedent h := ⟨IsRestyled.isKept.dedent h.1, IsRestyled.isKept.dedent h.2⟩
  lastMark? h := IsRestyled.isKept.lastMark? h.1
  encloses h := IsRestyled.isKept.encloses h.1
  memberStyle h := h.elim

variable {object member object' member' : Node} {isComputed isOptional : Bool}

-- How a member is printed depends on the style, and the other style is that of the other tree.
theorem IsStyled.emitMember
    (hobject : ∀ p, (IsStyled style ⇒ IsStyled style) (object.emit p) (object'.emit p))
    (hmember : ∀ p, (IsStyled style ⇒ IsStyled style) (member.emit p) (member'.emit p))
    (hobject' : object'.Resembles object) (hmember' : member'.Resembles member)
    (hcontent : member'.plainContent? = member.plainContent?)
    (hname : style = .dot → isComputed → dotName? member = member.plainContent?) (isBeforeIn isHead : Bool) :
    (IsStyled style ⇒ IsStyled style)
      (emitForm isBeforeIn isHead (.memberExpression object member isComputed isOptional))
      (emitForm isBeforeIn isHead
        ((Form.memberExpression object' member' isComputed isOptional).restyle style)) := by
  intro w v hwv
  have hw := hobject { least := Precedence.call, isEnclosed := isNumberLiteral object, isBeforeIn } hwv
  have hstyle {w v} (h : IsStyled style w v) :
      w.options.memberStyle = style ∧ v.options.memberStyle = .asIs := by
    obtain ⟨rfl, h⟩ := h
    exact ⟨by rw [h], rfl⟩
  have hkept : IsKept _ _ (IsStyled style) := IsStyled.isKept
  simp only [Form.restyle, emitForm, hcontent, hmember'.identifierName?]
  rw [(hstyle hw).1]
  split
  case h_1 name hdot =>
    rw [← hname rfl rfl, hdot]
    simp only [emitForm, hobject'.isNumberLiteral, (hstyle hw).2]
    rw [emit_eq_of_not_encloses (by cases isBeforeIn <;> rfl), emitForm]
    exact hkept.write trivial (hkept.write trivial hw)
  case h_2 name hidentifier =>
    rw [hidentifier]
    simp only [emitForm, hobject'.isNumberLiteral, (hstyle hw).2]
    rw [write_quoted, emit_eq_of_not_encloses (by cases isBeforeIn <;> rfl), emitForm]
    exact hkept.write trivial (hkept.write trivial (hkept.write trivial hw))
  case h_3 hdot =>
    split
    case h_1 hplain => exact absurd ((hname rfl rfl).trans hplain) (hdot _ rfl)
    case h_2 => contradiction
    case h_3 =>
      simp only [emitForm, hobject'.isNumberLiteral, (hstyle hw).2]
      exact hkept.write trivial (hmember _ (hkept.write trivial hw))
  case h_4 hbracket =>
    split
    case h_1 => contradiction
    case h_2 hidentifier => exact (hbracket _ rfl hidentifier).elim
    case h_3 =>
      simp only [emitForm, hobject'.isNumberLiteral, (hstyle hw).2]
      exact hmember _ (hkept.write trivial hw)

end Writer

variable {L : Token → Prop} {style : MemberStyle}

theorem Token.IsScanned.quoted {t : Token} (h : t.IsScanned) (hk : Grammar.literalKind? t = some .string) :
    ∃ quote text, t.value.toList = quote :: text ∧ (quote = '"' ∨ quote = '\'') := by
  obtain ⟨kind, span, value, marks, position, embeddings⟩ := t
  obtain ⟨rfl, hmarks⟩ : kind = .string ∧ marks.template = false := by
    unfold Grammar.literalKind? at hk
    split at hk <;> simp_all
  simp only [IsScanned] at h
  generalize value.toList = text at h
  generalize hkind : TokenKind.string = kind at h
  cases h with
  | quoted hq => exact ⟨_, _, rfl, hq⟩
  | template => cases hmarks
  | trivia ht =>
    subst hkind
    cases ht
  | word =>
    have hword := hkind ▸ word_kind_isWord (_ :: _)
    cases hword
  | _ => cases hkind

namespace Node

-- The printer sees the same names in strings, if these are tokens and are closed.
theorem dotName?_eq_plainContent? (style : MemberStyle) {role : Role} {n : Node} (h : Fills L role n)
    (hL : ComeScanned L) (hp : n.plainContent? = none → (n.restyled style).form.isPrintable) : dotName? n = n.plainContent? := by
  obtain ⟨span, form⟩ := n
  cases form
  case literal kind raw =>
    cases kind
    case string =>
      cases hplain : (mk span (.literal .string raw)).plainContent?
      case some name =>
        obtain ⟨quote, hquote, hraw, -⟩ := plainContent?_eq_some.mp hplain
        rw [← hplain]
        exact dotName?_eq (by simpa using hquote) hraw
      case none =>
        have hcloses : LiteralKind.string.closes raw := hp hplain
        obtain ⟨t, ht, hk, rfl⟩ := (h.isLiteral rfl).scanned hL
        obtain ⟨quote, text, hraw, hquote⟩ := ht.quoted hk
        simp only [LiteralKind.closes, hraw] at hcloses
        have hlast := Lexeme.getLast?_of_closesQuoted hcloses
        have htext : text = text.dropLast ++ [quote] := (List.dropLast_append_getLast? quote hlast).symm
        rw [← hplain]
        exact dotName?_eq hquote (htext ▸ hraw)
    all_goals rfl
  all_goals rfl

theorem IsPrintable.nodes_of_restyled {span : Span} {form : Form Node}
    (h : ((mk span form).restyled style).IsPrintable) (hmember : ¬form.isMember) :
    ∀ c ∈ form.nodes, (c.restyled style).IsPrintable := by
  rw [restyled_mk, restyle_of_not_isMember (by cases form <;> exact hmember)] at h
  intro c hc
  refine h.of_mem (?_ : _ ∈ (form.map (restyled style)).nodes)
  rw [Form.nodes_map]
  exact List.mem_map_of_mem hc

theorem IsPrintable.object_of_restyle {span : Span} {object member : Node} {isComputed isOptional : Bool}
    (h : (mk span ((Form.memberExpression object member isComputed isOptional).restyle style)).IsPrintable) :
    object.IsPrintable := by
  obtain ⟨member', isComputed', heq⟩ := restyle_memberExpression style object member isComputed isOptional
  rw [heq] at h
  exact h.of_mem (by simp [Node.form, Form.children, Form.slots, Slot.children])

-- A tree is printed in a style as the tree in that style is printed as it is.
theorem emit_restyled {role : Role} {n : Node} (h : Fills L role n) (hL : ComeScanned L)
    (hp : (n.restyled style).IsPrintable) (p : Place) :
    (IsStyled style ⇒ IsStyled style) (n.emit p) ((n.restyled style).emit p) := by
  induction n using induct_nodes generalizing role p
  case h span form ih =>
    have hencloses (p : Place) := (resembles_restyled style (mk span form)).encloses p
    have hchild (c : Node) (hc : c ∈ form.nodes) (hp : (c.restyled style).IsPrintable) (p : Place) :
        (IsStyled style ⇒ IsStyled style) (c.emit p) ((c.restyled style).emit p) := by
      obtain ⟨role', hc'⟩ := h.of_mem hc
      exact ih c hc hc' hp p
    rw [restyled_mk] at hencloses ⊢
    refine emit_map IsStyled.isKept hencloses (fun isBeforeIn isHead => ?_) p
    by_cases hmember : form.isMember
    case neg =>
      rw [restyle_of_not_isMember (by cases form <;> exact hmember)]
      exact Form.emit_map IsStyled.isKept (resembles_restyled style) (fun _ _ => trivial) hmember
        (fun c hc => hchild c hc (hp.nodes_of_restyled hmember c hc)) isBeforeIn isHead
    case pos =>
      rw [restyled_mk] at hp
      cases form <;> cases hmember
      case memberExpression object member isComputed isOptional =>
        have hobject := hchild object (by simp [Form.slots]) (hp.object_of_restyle)
        have hleft (hdot : style = .dot → isComputed → member.plainContent? = none)
            (hbracket : style = .bracket → isComputed = false → member.identifierName? = none) :
            (member.restyled style).IsPrintable := by
          rw [Form.map, restyle_eq_self (by rwa [plainContent?_restyled])
            (by rwa [(resembles_restyled style member).identifierName?])] at hp
          exact hp.of_mem (by simp [Node.form, Form.children, Form.slots, Slot.children])
        refine IsStyled.emitMember hobject (fun p => ?_) (resembles_restyled style _) (resembles_restyled style _)
          (plainContent?_restyled _) (fun hstyle hcomputed => ?_) isBeforeIn isHead
        · -- A name or a string may have been rewritten. It is printed alike nevertheless.
          obtain ⟨memberSpan, form⟩ := member
          cases form
          case identifier | literal =>
            refine emit_map IsStyled.isKept (fun _ => rfl) (fun isBeforeIn isHead => ?_) p
            refine Form.emit_map IsStyled.isKept (resembles_restyled style) (fun _ _ => trivial) ?_
              (by simp [Form.slots]) isBeforeIn isHead
            exact Bool.false_ne_true
          all_goals exact hchild _ (by simp [Form.slots]) (hleft (fun _ _ => rfl) fun _ _ => rfl) p
        · obtain ⟨role', hmember⟩ := h.of_mem (c := member)
            (by simp [Node.form, Form.children, Form.slots, Slot.children])
          refine dotName?_eq_plainContent? style hmember hL fun hplain => (hleft ?_ ?_).form
          · exact fun _ _ => hplain
          · exact fun hbracket => absurd (hstyle.symm.trans hbracket) (by decide)

end Node

/-! ### What is read -/

variable {L' : Token → Prop}

namespace Role

variable {name raw : String} {kind : LiteralKind} {operator : Operator}

theorem IsName.mono (h : IsName L name) (hL : ∀ t, L t → L' t) : IsName L' name :=
  h.imp fun t ht => ht.imp_left (hL t)

theorem IsWord.mono (h : IsWord L name) (hL : ∀ t, L t → L' t) : IsWord L' name :=
  h.imp fun t ht => ht.imp_left (hL t)

theorem IsLiteral.mono (h : IsLiteral L kind raw) (hL : ∀ t, L t → L' t) : IsLiteral L' kind raw :=
  h.imp fun t ht => ht.imp_left (hL t)

theorem Joins.mono (h : Joins L operator) (hL : ∀ t, L t → L' t) : Joins L' operator :=
  h.imp fun t ht => ht.imp fun _ ht => ht.imp_left (hL t)

theorem Assigns.mono (h : Assigns L operator) (hL : ∀ t, L t → L' t) : Assigns L' operator :=
  h.imp fun t ht => ht.imp_left (hL t)

-- Every literal between quotes is a token, and every word is one.
theorem isLiteral_quoted (hL : ∀ t : Token, t.IsScanned → L t) (name : String) :
    IsLiteral L .string ("\"" ++ name ++ "\"") := by
  refine ⟨{ kind := .string, span := Node.nowhere, value := _ }, hL _ ?_, rfl, rfl⟩
  simp only [Token.IsScanned, String.toList_append]
  exact .quoted (.inl rfl)

theorem isWord_of_isPrintable (hL : ∀ t : Token, t.IsScanned → L t) (h : IsPrintable name) :
    IsWord L name := by
  obtain ⟨c, text, htext⟩ := List.exists_cons_of_ne_nil h.nonempty
  have hword : ∀ d ∈ name.toList, isWord d := fun d hd => isWord_of_isPrintedWord (h.chars d hd)
  rw [htext] at hword
  let word := Scanner.word name.toList
  refine ⟨⟨word.kind, Node.nowhere, name, word.marks, {}, []⟩, hL _ ?_, word_kind_isWord _, rfl⟩
  simp only [Token.IsScanned, word, htext]
  refine .word ?_ fun d hd => hword d (.tail _ hd)
  simp [isWordStart, hword c (.head _), h.head c (by rw [htext]; rfl)]

end Role

-- In the style a node plays the role that it played, for the tokens that it may now be made of.
theorem Fills.restyled {role : Role} {n : Node} (h : Fills L role n) (hL : ∀ t, L t → L' t)
    (hL' : ∀ t : Token, t.IsScanned → L' t) (hp : (n.restyled style).IsPrintable) :
    Fills L' role (n.restyled style) := by
  induction h
  case identifier ih => exact .identifier (ih hp)
  case target hn _ ih => exact .target (by rwa [(Node.resembles_restyled _ _).isAssignable]) (ih hp)
  case declarationStatement ih => exact .declarationStatement (ih hp)
  case blockStatement ih => exact .blockStatement (ih hp)
  case loopDeclaration ih => exact .loopDeclaration (ih hp)
  case loopExpression ih => exact .loopExpression (ih hp)
  case loopTarget ih => exact .loopTarget (ih hp)
  case member hmember iho ihm =>
    clear ihm
    cases hmember
    case word name h =>
      rw [Node.restyled_mk] at hp ⊢
      have hobject := iho hp.object_of_restyle
      cases style
      case bracket => exact .computedMember hobject (.literal (Role.isLiteral_quoted hL' name))
      case asIs | dot => exact .member hobject (.word (h.mono hL))
  case computedMember span object member _ _ iho ihm =>
    rw [Node.restyled_mk, Form.map] at hp ⊢
    have hobject := iho hp.object_of_restyle
    by_cases hplain : style = .dot ∧ member.plainContent?.isSome
    case pos =>
      obtain ⟨rfl, hsome⟩ := hplain
      obtain ⟨name, hname⟩ := Option.isSome_iff_exists.mp hsome
      simp only [Form.restyle, Node.plainContent?_restyled, hname]
      exact .member hobject (.word (Role.isWord_of_isPrintable hL' (isPrintable_of_plainContent? hname)))
    case neg =>
      have hnone (hdot : style = .dot) : (member.restyled style).plainContent? = none := by
        rw [Node.plainContent?_restyled]
        simpa [hdot] using hplain
      rw [Node.restyle_eq_self (fun hdot _ => hnone hdot) fun _ h => by cases h] at hp ⊢
      exact .computedMember hobject
        (ihm (hp.of_mem (by simp [Node.form, Form.children, Form.slots, Slot.children])))
  case loopVariable ih =>
    have hdeclarator := hp.nodes_of_restyled Bool.false_ne_true _ (List.mem_singleton.mpr rfl)
    exact .loopVariable (ih (hdeclarator.nodes_of_restyled Bool.false_ne_true _ (List.mem_singleton.mpr rfl)))
  -- Else the parts of the node are in the style as well.
  all_goals
    replace hp := hp.nodes_of_restyled Bool.false_ne_true
    simp [Form.slots, ← Option.mem_def, or_imp, forall_and] at hp
    rw [Node.restyled_mk]
    simp only [Form.map, Form.restyle]
  case program hns ih =>
    exact .program (List.forall_mem_map.mpr fun n hn => ih n hn (hp n hn)) (hns.map (Node.resembles_restyled _))
  -- Names and literals
  case name h => exact .name (h.mono hL)
  case word h => exact .word (h.mono hL)
  case keyWord h => exact .keyWord (h.mono hL)
  case keyLiteral hkind h => exact .keyLiteral hkind (h.mono hL)
  case literal h => exact .literal (h.mono hL)
  -- Expressions
  case thisExpression => exact .thisExpression
  case array ih =>
    refine .array fun n hn => ?_
    obtain ⟨m, hm, hmn⟩ := List.mem_map.mp hn
    obtain ⟨c, rfl, rfl⟩ := Option.map_eq_some_iff.mp hmn
    exact ih c hm (hp c (List.reduceOption_mem_iff.mpr hm))
  case object ih => exact .object (List.forall_mem_map.mpr fun n hn => ih n hn (hp n hn))
  case property ihk ihv => exact .property (ihk hp.1) (ihv hp.2)
  case functionExpression ihi ihp ihb =>
    exact .functionExpression (Option.forall_mem_map.mpr fun n hn => ihi n hn (hp.1 n hn))
      (List.forall_mem_map.mpr fun n hn => ihp n hn (hp.2.1 n hn)) (ihb hp.2.2)
  case update ih => exact .update (ih hp)
  case unary ih => exact .unary (ih hp)
  case binary hop _ _ ihl ihr => exact .binary (hop.mono hL) (ihl hp.1) (ihr hp.2)
  case assignment hop _ _ ihl ihr => exact .assignment (hop.mono hL) (ihl hp.1) (ihr hp.2)
  case conditional iht ihc iha => exact .conditional (iht hp.1) (ihc hp.2.1) (iha hp.2.2)
  case sequence hlength _ ih =>
    exact .sequence (by rwa [List.length_map]) (List.forall_mem_map.mpr fun n hn => ih n hn (hp n hn))
  case call ihc iha => exact .call (ihc hp.1) (List.forall_mem_map.mpr fun n hn => iha n hn (hp.2 n hn))
  case construction ihc iha =>
    exact .construction (ihc hp.1) (List.forall_mem_map.mpr fun n hn => iha n hn (hp.2 n hn))
  -- Declarations
  case declarator hconstant _ _ ihd ihi =>
    exact .declarator (by simpa using hconstant) (ihd hp.1)
      (Option.forall_mem_map.mpr fun n hn => ihi n hn (hp.2 n hn))
  case declaration hne _ ih =>
    exact .declaration (by simpa using hne) (List.forall_mem_map.mpr fun n hn => ih n hn (hp n hn))
  case functionDeclaration ihi ihp ihb =>
    exact .functionDeclaration (ihi hp.1) (List.forall_mem_map.mpr fun n hn => ihp n hn (hp.2.1 n hn))
      (ihb hp.2.2)
  -- Statements
  case expressionStatement ih => exact .expressionStatement (ih hp)
  case emptyStatement => exact .emptyStatement
  case debuggerStatement => exact .debuggerStatement
  case block hns ih =>
    exact .block (List.forall_mem_map.mpr fun n hn => ih n hn (hp n hn)) (hns.map (Node.resembles_restyled _))
  case ifStatement hopen _ _ _ iht ihc iha =>
    refine .ifStatement ?_ (iht hp.1) (ihc hp.2.1)
      (Option.forall_mem_map.mpr fun n hn => iha n hn (hp.2.2 n hn))
    rwa [Option.isSome_map, (Node.resembles_restyled _ _).endsWithOpenIf]
  case whileStatement iht ihb => exact .whileStatement (iht hp.1) (ihb hp.2)
  case doWhileStatement ihb iht => exact .doWhileStatement (ihb hp.1) (iht hp.2)
  case forStatement ihi iht ihu ihb =>
    exact .forStatement (Option.forall_mem_map.mpr fun n hn => ihi n hn (hp.1 n hn))
      (Option.forall_mem_map.mpr fun n hn => iht n hn (hp.2.1 n hn))
      (Option.forall_mem_map.mpr fun n hn => ihu n hn (hp.2.2.1 n hn)) (ihb hp.2.2.2)
  case forInStatement ihl ihr ihb => exact .forInStatement (ihl hp.1) (ihr hp.2.1) (ihb hp.2.2)
  case breakStatement hscope _ ih =>
    exact .breakStatement hscope (Option.forall_mem_map.mpr fun n hn => ih n hn (hp n hn))
  case continueStatement hscope _ ih =>
    exact .continueStatement hscope (Option.forall_mem_map.mpr fun n hn => ih n hn (hp n hn))
  case returnStatement hscope _ ih =>
    exact .returnStatement hscope (Option.forall_mem_map.mpr fun n hn => ih n hn (hp n hn))
  case throwStatement ih => exact .throwStatement (ih hp)
  case handler ihp ihb => exact .handler (ihp hp.1) (ihb hp.2)
  case tryStatement hsome _ _ _ ihb ihh ihf =>
    exact .tryStatement (by simpa using hsome) (ihb hp.1)
      (Option.forall_mem_map.mpr fun n hn => ihh n hn (hp.2.1 n hn))
      (Option.forall_mem_map.mpr fun n hn => ihf n hn (hp.2.2 n hn))
  case labeledStatement ihl ihb => exact .labeledStatement (ihl hp.1) (ihb hp.2)
  case switchCase hns iht ihb =>
    exact .switchCase (Option.forall_mem_map.mpr fun n hn => iht n hn (hp.1 n hn))
      (List.forall_mem_map.mpr fun n hn => ihb n hn (hp.2 n hn)) (hns.map (Node.resembles_restyled _))
  case switchStatement hdefault _ _ ihd iha =>
    refine .switchStatement ?_ (ihd hp.1) (List.forall_mem_map.mpr fun n hn => iha n hn (hp.2 n hn))
    rw [List.countP_map]
    simpa [Function.comp_def, (Node.resembles_restyled _ _).isDefaultCase] using hdefault
  case withStatement iho ihb => exact .withStatement (iho hp.1) (ihb hp.2)

/-! ### Scripts -/

theorem Writer.IsStyled.start (options : PrintOptions) :
    IsStyled options.memberStyle { options } { options := { options with memberStyle := .asIs } } :=
  ⟨rfl, rfl⟩

-- What is printed in a style is read as the script in that style, if this is one that can be printed.
theorem parse_print_restyled {options : ParseOptions} {style : PrintOptions} {source : String} {tree : Node}
    (h : parse options (Token.ofSource source true) = .ok tree)
    (hp : (tree.restyled style.memberStyle).IsPrintable) :
    ∃ tree', parse options (Token.ofSource (tree.print style) true) = .ok tree' ∧
      tree'.bare = (tree.restyled style.memberStyle).bare := by
  have hL := comeScanned_ofSource source
  have hfills := fills_of_parse h
  have hprint : tree.print style =
      (tree.restyled style.memberStyle).print { style with memberStyle := .asIs } := by
    have hemit := (Node.emit_restyled hfills hL hp {} (.start style)).1
    rw [Node.print, Node.print, hemit]
    rfl
  have hrestyled : Fills (fun t => t ∈ Token.ofSource source true ∨ t.IsScanned) _ (tree.restyled _) :=
    hfills.restyled (fun _ => .inl) (fun _ => .inr) hp
  obtain ⟨span, ns, rfl⟩ := parse_eq_program h
  rw [hprint]
  rw [Node.restyled_mk] at hrestyled hp ⊢
  exact hrestyled.parse_print (fun t ht hk => ht.elim (fun ht => hL t ht hk) id) hp rfl

theorem parseSource_print_restyled {style : PrintOptions} {source : String} {tree : Node}
    (h : parseSource source = .ok tree)
    (hp : ∀ l form, (tree.restyled style.memberStyle).formAt? l = some form → form.isPrintable) :
    ∃ tree', parseSource (tree.print style) = .ok tree' ∧
      tree'.bare = (tree.restyled style.memberStyle).bare :=
  parse_print_restyled h hp

-- A name and two strings, one of which is no name.
theorem parseSource_print_restyled_members : ∃ tree, parseSource "a.b[\"c\"]['d e'] / f" = .ok tree ∧
    (tree.print { memberStyle := .bracket } = "a[\"b\"][\"c\"]['d e']/f;" ∧ ∃ tree',
      parseSource "a[\"b\"][\"c\"]['d e']/f;" = .ok tree' ∧ tree'.bare = (tree.restyled .bracket).bare) ∧
    tree.print { memberStyle := .dot, isSpaced := true } = "a.b.c['d e'] / f;" ∧ ∃ tree',
      parseSource "a.b.c['d e'] / f;" = .ok tree' ∧ tree'.bare = (tree.restyled .dot).bare := by
  have h : (parseSource "a.b[\"c\"]['d e'] / f").toOption.any fun tree =>
      (tree.restyled .bracket).checkPrintable && (tree.restyled .dot).checkPrintable &&
        tree.print { memberStyle := .bracket } == "a[\"b\"][\"c\"]['d e']/f;" &&
        tree.print { memberStyle := .dot, isSpaced := true } == "a.b.c['d e'] / f;" := by
    decide +kernel
  cases htree : parseSource "a.b[\"c\"]['d e'] / f"
  case error => simp [htree, Except.toOption] at h
  case ok tree =>
    simp only [htree, Except.toOption, Option.any_some, Bool.and_eq_true, beq_iff_eq] at h
    obtain ⟨⟨⟨hbracket, hdot⟩, hprint⟩, hprint'⟩ := h
    have hread := @parseSource_print_restyled { memberStyle := .bracket } _ _ htree
      (Node.isPrintable_of_checkPrintable hbracket)
    have hread' := @parseSource_print_restyled { memberStyle := .dot, isSpaced := true } _ _ htree
      (Node.isPrintable_of_checkPrintable hdot)
    rw [hprint] at hread
    rw [hprint'] at hread'
    exact ⟨tree, rfl, ⟨hprint, hread⟩, hprint', hread'⟩

-- Behind a dot, `in` lets a regular expression follow.
theorem parseSource_print_restyled_slash : ∃ tree, parseSource "a[\"in\"]/b;\nc/d" = .ok tree ∧
    (tree.print { memberStyle := .asIs } = "a[\"in\"]/b;c/d;" ∧ (parseSource "a[\"in\"]/b;c/d;").isOk) ∧
    tree.print { memberStyle := .dot } = "a.in/b;c/d;" ∧ ¬(parseSource "a.in/b;c/d;").isOk := by
  have h : (parseSource "a[\"in\"]/b;\nc/d").toOption.any fun tree =>
      tree.print { memberStyle := .asIs } == "a[\"in\"]/b;c/d;" && (parseSource "a[\"in\"]/b;c/d;").isOk &&
        tree.print { memberStyle := .dot } == "a.in/b;c/d;" && !(parseSource "a.in/b;c/d;").isOk := by
    decide +kernel
  cases htree : parseSource "a[\"in\"]/b;\nc/d"
  case error => simp [htree, Except.toOption] at h
  case ok tree =>
    simp only [htree, Except.toOption, Option.any_some, Bool.and_eq_true, beq_iff_eq, Bool.not_eq_true'] at h
    obtain ⟨⟨⟨hprint, hread⟩, hprint'⟩, hread'⟩ := h
    exact ⟨tree, rfl, ⟨hprint, hread⟩, hprint', by simpa using hread'⟩

end ScriptTree
