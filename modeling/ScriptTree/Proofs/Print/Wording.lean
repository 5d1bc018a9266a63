import ScriptTree.Proofs.Parse.Wording.Statement
import ScriptTree.Proofs.Print.Restyled
import ScriptTree.Proofs.Token.Sift

/-!
The tokens of what is printed.

The text of a tree is scanned as the tokens that the tree stands for. So each slash that is printed is the
slash that it was meant to be, and words that are printed one behind the other stay apart.
-/

namespace ScriptTree

namespace TokenKind

-- Is it an operator with a slash, or a regular expression?
def isSlash : TokenKind → Bool
  | operator .slash | operator .slashAssign | regex => true
  | _ => false

-- Is it a word or a number?
def isWordOrNumber : TokenKind → Bool
  | number => true
  | kind => kind.isWord

end TokenKind

namespace Token

-- Among the tokens of a kind that is essential nothing is lost.
theorem filter_map_face {wanted : TokenKind → Bool} (h : ∀ kind, wanted kind → kind.isEssential)
    (ts : List Token) :
    (ts.map face).filter (wanted ·.kind) = (wording ts).filter (wanted ·.kind) := by
  rw [wording, List.filter_map, List.filter_map, List.filter_filter]
  refine congrArg _ (List.filter_congr fun t _ => ?_)
  have ht := h t.kind
  show wanted t.kind = (wanted t.kind && t.kind.isEssential)
  cases hw : wanted t.kind
  case false => rfl
  case true => rw [ht hw]; rfl

theorem wording_siftTokens (ts : List Token) : wording (siftTokens ts) = wording ts := by
  induction ts
  case nil => rw [siftTokens]
  case cons t ts ih =>
    have hcons (t : Token) (ts : List Token) : wording (t :: ts) = wording [t] ++ wording ts :=
      wording_append [t] ts
    rw [siftTokens]
    split
    case isTrue ht =>
      have hess : t.kind.isEssential = false := by
        revert ht
        unfold isTrivia
        cases t.kind <;> simp [TokenKind.isTrivia, TokenKind.isEssential]
      rw [ih, hcons t, wording_singleton, hess]
      rfl
    case isFalse =>
      have hface : t.sift.face = t.face := by
        cases t
        simp [sift, face]
      rw [hcons t.sift, hcons t, ih, wording_singleton, wording_singleton, sift_kind, hface]

theorem wording_ofSource (source : String) (keepTrivia : Bool) :
    wording (ofSource source keepTrivia) = wording (ofSource source true) := by
  cases keepTrivia
  case false => rw [ofSource_sift, wording_siftTokens]
  case true => rfl

end Token

-- What is printed is scanned as the tokens that the tree stands for, with its members in the style.
theorem wording_print {options : ParseOptions} {style : PrintOptions} {source : String} {tree : Node}
    (h : parse options (Token.ofSource source true) = .ok tree)
    (hp : (tree.restyled style.memberStyle).IsPrintable) (keepTrivia : Bool) :
    Token.wording (Token.ofSource (tree.print style) keepTrivia) =
      (tree.restyled style.memberStyle).wording := by
  obtain ⟨tree', hread, hbare⟩ := parse_print_restyled h hp
  rw [Token.wording_ofSource, wording_of_parse hread, ← Node.wording_bare, hbare, Node.wording_bare]

/-! ### Slashes -/

-- Of the faces of a construct those are wanted that are wanted of its children, and some of its own.
theorem Form.filter_spell_congr {wanted : Face → Bool} {f g : Node → List Face} {form : Form Node}
    (h : ∀ n ∈ form.nodes, (f n).filter wanted = (g n).filter wanted) :
    (form.spell f).filter wanted = (form.spell g).filter wanted := by
  have hfilter (f : Node → List Face) : (form.spell f).filter wanted =
      (form.map (List.filter wanted ∘ f)).parts.flatMap (Sum.elim (fun face => [face].filter wanted) id) := by
    rw [parts_map, List.flatMap_map, spell, facesOf, List.filter_flatMap]
    exact List.flatMap_congr fun part _ => by cases part <;> rfl
  have hmap : form.map (List.filter wanted ∘ f) = form.map (List.filter wanted ∘ g) := Form.map_congr h
  rw [hfilter, hfilter, hmap]

theorem Face.isSlash_word (name : String) : (word name).kind.isSlash = false := by
  unfold word Scanner.word
  dsimp only
  split <;> rfl

-- A member is in no style a slash.
theorem Form.filter_spell_restyle (style : MemberStyle) (form : Form Node) :
    ((form.restyle style).spell Node.wording).filter (·.kind.isSlash) =
      (form.spell Node.wording).filter (·.kind.isSlash) := by
  have hname (span : Span) (name : String) :
      (Node.mk span (.identifier name)).wording.filter (·.kind.isSlash) = [] := by
    simp [Node.wording_mk, spell, parts, Face.isSlash_word]
  have hstring (span : Span) (raw : String) :
      (Node.mk span (.literal .string raw)).wording.filter (·.kind.isSlash) = [] := by
    simp [Node.wording_mk, spell, parts, Face.literal, TokenKind.isSlash]
  have hmarks (op : Operator) (hop : op ∈ [.dot, .leftBracket, .rightBracket]) :
      (Face.op op).kind.isSlash = false := by
    revert op
    decide
  unfold restyle
  split
  case h_1 object member isComputed isOptional =>
    obtain ⟨span, member⟩ := member
    split
    case h_1 name hcontent =>
      obtain ⟨raw, rfl⟩ : ∃ raw, member = .literal .string raw := by
        unfold Node.plainContent? at hcontent
        split at hcontent
        case h_1 raw hform => exact ⟨raw, hform⟩
        case h_2 => cases hcontent
      simp [spell, parts, Node.span, hname, hstring, hmarks]
    case h_2 name hmember =>
      obtain rfl : member = .identifier name := by
        unfold Node.identifierName? at hmember
        split at hmember
        case h_1 hform => cases hmember; exact hform
        case h_2 => cases hmember
      simp [spell, parts, Node.span, hname, hstring, hmarks]
    case h_3 => rfl
  case h_2 => rfl

theorem Node.filter_wording_restyled (style : MemberStyle) (n : Node) :
    (n.restyled style).wording.filter (·.kind.isSlash) = n.wording.filter (·.kind.isSlash) := by
  induction n using induct_nodes
  case h span form ih =>
    rw [restyled_mk, wording_mk, wording_mk, Form.filter_spell_restyle, Form.spell_map]
    exact Form.filter_spell_congr ih

theorem slashes_of_print {style : PrintOptions} {source : String} {tree : Node}
    (h : parseSource source = .ok tree)
    (hp : ∀ l form, (tree.restyled style.memberStyle).formAt? l = some form → form.isPrintable)
    (keepTrivia : Bool) :
    ((Token.ofSource (tree.print style) keepTrivia).map Token.face).filter (·.kind.isSlash) =
      tree.wording.filter (·.kind.isSlash) := by
  have hessential : ∀ kind : TokenKind, kind.isSlash → kind.isEssential := by
    intro kind hk
    unfold TokenKind.isSlash at hk
    split at hk
    case h_4 => cases hk
    all_goals rfl
  rw [Token.filter_map_face hessential, wording_print h hp, Node.filter_wording_restyled]

theorem slashes_of_print_member : ∃ tree, parseSource "a['b'] / /e/g" = .ok tree ∧
    tree.print { memberStyle := .dot } = "a.b/(/e/g);" ∧
    tree.wording.filter (·.kind.isSlash) = [.op .slash, .literal .regex "/e/g"] ∧
    ((Token.ofSource "a.b/(/e/g);" false).map Token.face).filter (·.kind.isSlash) =
      tree.wording.filter (·.kind.isSlash) := by
  have h : (parseSource "a['b'] / /e/g").toOption.any fun tree => (tree.restyled .dot).checkPrintable &&
      tree.print { memberStyle := .dot } == "a.b/(/e/g);" &&
      tree.wording.filter (·.kind.isSlash) == [.op .slash, .literal .regex "/e/g"] := by
    decide +kernel
  cases htree : parseSource "a['b'] / /e/g"
  case error => simp [htree, Except.toOption] at h
  case ok tree =>
    simp only [htree, Except.toOption, Option.any_some, Bool.and_eq_true, beq_iff_eq] at h
    obtain ⟨⟨hcheck, hprint⟩, hwording⟩ := h
    have hslashes := @slashes_of_print { memberStyle := .dot } _ _ htree
      (Node.isPrintable_of_checkPrintable hcheck) false
    rw [hprint] at hslashes
    exact ⟨tree, rfl, hprint, hwording, hslashes⟩

-- Behind a dot, `in` lets a regular expression follow.
theorem slashes_of_print_operator_name : ∃ tree, parseSource "a.in/b;\nc/d" = .ok tree ∧
    tree.print {} = "a.in/b;c/d;" ∧
    tree.wording.filter (·.kind.isSlash) = [.op .slash, .op .slash] ∧
    ((Token.ofSource "a.in/b;c/d;" false).map Token.face).filter (·.kind.isSlash) =
      [.literal .regex "/b;c/d"] := by
  have h : (parseSource "a.in/b;\nc/d").toOption.any fun tree => tree.print {} == "a.in/b;c/d;" &&
      tree.wording.filter (·.kind.isSlash) == [.op .slash, .op .slash] := by
    decide +kernel
  cases htree : parseSource "a.in/b;\nc/d"
  case error => simp [htree, Except.toOption] at h
  case ok tree =>
    simp only [htree, Except.toOption, Option.any_some, Bool.and_eq_true, beq_iff_eq] at h
    exact ⟨tree, rfl, h.1, h.2, by decide +kernel⟩

/-! ### Words -/

theorem words_of_print {style : PrintOptions} {source : String} {tree : Node}
    (h : parseSource source = .ok tree)
    (hp : ∀ l form, (tree.restyled style.memberStyle).formAt? l = some form → form.isPrintable)
    (keepTrivia : Bool) :
    ((Token.ofSource (tree.print style) keepTrivia).map Token.face).filter (·.kind.isWordOrNumber) =
      (tree.restyled style.memberStyle).wording.filter (·.kind.isWordOrNumber) := by
  have hessential : ∀ kind : TokenKind, kind.isWordOrNumber → kind.isEssential := by
    intro kind hk
    cases kind <;> first | rfl | cases hk
  rw [Token.filter_map_face hessential, wording_print h hp]

theorem words_of_print_operators :
    ∃ tree, parseSource "throw typeof a in 1 instanceof b.c" = .ok tree ∧
    tree.print { memberStyle := .bracket } = "throw typeof a in 1 instanceof b[\"c\"];" ∧
    (tree.restyled .bracket).wording.filter (·.kind.isWordOrNumber) =
      [.word "throw", .word "typeof", .word "a", .word "in", .literal .number "1", .word "instanceof",
        .word "b"] ∧
    ((Token.ofSource "throw typeof a in 1 instanceof b[\"c\"];" false).map Token.face).filter
      (·.kind.isWordOrNumber) = (tree.restyled .bracket).wording.filter (·.kind.isWordOrNumber) := by
  have h : (parseSource "throw typeof a in 1 instanceof b.c").toOption.any fun tree =>
      (tree.restyled .bracket).checkPrintable &&
      tree.print { memberStyle := .bracket } == "throw typeof a in 1 instanceof b[\"c\"];" &&
      (tree.restyled .bracket).wording.filter (·.kind.isWordOrNumber) ==
        [.word "throw", .word "typeof", .word "a", .word "in", .literal .number "1", .word "instanceof",
          .word "b"] := by
    decide +kernel
  cases htree : parseSource "throw typeof a in 1 instanceof b.c"
  case error => simp [htree, Except.toOption] at h
  case ok tree =>
    simp only [htree, Except.toOption, Option.any_some, Bool.and_eq_true, beq_iff_eq] at h
    obtain ⟨⟨hcheck, hprint⟩, hwording⟩ := h
    have hwords := @words_of_print { memberStyle := .bracket } _ _ htree
      (Node.isPrintable_of_checkPrintable hcheck) false
    rw [hprint] at hwords
    exact ⟨tree, rfl, hprint, hwording, hwords⟩

-- A name may start with a character that is no letter to the writer.
theorem words_of_print_number_sign : ∃ tree, parseSource "throw #x" = .ok tree ∧
    tree.print {} = "throw#x;" ∧
    tree.wording.filter (·.kind.isWordOrNumber) = [.word "throw", .word "#x"] ∧
    ((Token.ofSource "throw#x;" false).map Token.face).filter (·.kind.isWordOrNumber) =
      [.word "throw#x"] := by
  have h : (parseSource "throw #x").toOption.any fun tree => tree.print {} == "throw#x;" &&
      tree.wording.filter (·.kind.isWordOrNumber) == [.word "throw", .word "#x"] := by
    decide +kernel
  cases htree : parseSource "throw #x"
  case error => simp [htree, Except.toOption] at h
  case ok tree =>
    simp only [htree, Except.toOption, Option.any_some, Bool.and_eq_true, beq_iff_eq] at h
    exact ⟨tree, rfl, h.1, h.2, by decide +kernel⟩

end ScriptTree
