import ScriptTree.Proofs.Node.Bare
import ScriptTree.Proofs.Parse.Nesting

/-!
The tokens that a tree stands for.

A tree determines the tokens that it is read from, in their order, but for parentheses, commas and
semicolons. Those may be more or fewer than need be.
-/

namespace ScriptTree

/-! ### Tokens and trees -/

-- What a token is and how it is spelled.
structure Face where
  kind : TokenKind
  text : String
deriving DecidableEq

namespace Face

def keyword (k : Keyword) : Face :=
  ⟨.keyword k, k.spelling⟩

-- The two operators that are words are keywords to the scanner.
def op : Operator → Face
  | .inside     => keyword .inWord
  | .instanceOf => keyword .instanceofWord
  | operator    => ⟨.operator operator, operator.spelling⟩

def word (name : String) : Face :=
  ⟨(Scanner.word name.toList).kind, name⟩

def unary : UnaryOperator → Face
  | .plus       => op .plus
  | .minus      => op .minus
  | .tilde      => op .tilde
  | .bang       => op .bang
  | .voidWord   => keyword .voidWord
  | .typeofWord => keyword .typeofWord
  | .deleteWord => keyword .deleteWord

def update : UpdateOperator → Face
  | .increment => op .increment
  | .decrement => op .decrement

def declaration : VariableKind → Face
  | .var      => keyword .varWord
  | .lexical  => keyword .letWord
  | .constant => keyword .constWord

def literal (kind : LiteralKind) (raw : String) : Face :=
  match kind with
  | .string | .template => ⟨.string, raw⟩
  | .number             => ⟨.number, raw⟩
  | .regex              => ⟨.regex, raw⟩
  | .boolean | .null    => word raw

end Face

-- Does a tree determine that the token is there?
def TokenKind.isEssential : TokenKind → Bool
  | comment | lineBreak | blank | endOfInput => false
  | operator op => !([.leftParen, .rightParen, .comma, .semicolon].contains op)
  | _ => true

namespace Token

def face (t : Token) : Face :=
  ⟨t.kind, t.value⟩

-- The faces of the tokens that a tree determines.
def wording (ts : List Token) : List Face :=
  (ts.filter (·.kind.isEssential)).map face

theorem wording_append (ts us : List Token) : wording (ts ++ us) = wording ts ++ wording us := by
  simp [wording]

theorem wording_singleton (t : Token) : wording [t] = if t.kind.isEssential then [t.face] else [] := by
  cases h : t.kind.isEssential <;> simp [wording, h]

theorem wording_filter_isProper (ts : List Token) : wording (ts.filter isProper) = wording ts := by
  rw [wording, wording, List.filter_filter]
  refine congrArg _ (List.filter_congr fun t _ => ?_)
  cases hk : t.kind <;> simp [hk, TokenKind.isEssential, isProper, isTrivia, TokenKind.isTrivia]

-- The kind of a scanned word and its text go together.
theorem IsScanned.face_eq_word {t : Token} (h : t.IsScanned) (hw : t.isWord) : t.face = .word t.value :=
  have hsign := (h.word hw).2 false
  congrArg (Face.mk · t.value) (congrArg Sign.kind hsign)

theorem IsScanned.face_eq_literal {t : Token} {kind : LiteralKind} (h : t.IsScanned)
    (hk : Grammar.literalKind? t = some kind) : t.kind.isEssential ∧ t.face = .literal kind t.value := by
  unfold Grammar.literalKind? at hk
  rw [face]
  split at hk
  case h_1 hkind =>
    rw [hkind]
    split at hk <;> cases hk <;> exact ⟨rfl, rfl⟩
  case h_2 hkind | h_3 hkind =>
    rw [hkind]
    cases hk
    exact ⟨rfl, rfl⟩
  case h_4 hkind | h_5 hkind =>
    cases hk
    exact ⟨by rw [hkind]; rfl, h.face_eq_word (by rw [isWord, hkind]; rfl)⟩
  case h_6 => cases hk

end Token

namespace Form

variable {α β : Type}

-- The tokens of a construct and its children, in their order.
def parts : Form α → List (Face ⊕ α)
  | program body _ => body.map .inr
  | variableDeclaration declarations kind => .inl (.declaration kind) :: declarations.map .inr
  | variableDeclarator id init => .inr id :: init.toList.flatMap fun n => [.inl (.op .assign), .inr n]
  | identifier name => [.inl (.word name)]
  | literal kind raw => [.inl (.literal kind raw)]
  | binaryExpression left operator right => [.inr left, .inl (.op operator), .inr right]
  | updateExpression operator isPrefix argument =>
    if isPrefix then [.inl (.update operator), .inr argument] else [.inr argument, .inl (.update operator)]
  | assignmentExpression operator left right => [.inr left, .inl (.op operator), .inr right]
  | unaryExpression operator _ argument => [.inl (.unary operator), .inr argument]
  | conditionalExpression test consequent alternate =>
    [.inr test, .inl (.op .question), .inr consequent, .inl (.op .colon), .inr alternate]
  | arrayExpression elements =>
    .inl (.op .leftBracket) :: elements.reduceOption.map .inr ++ [.inl (.op .rightBracket)]
  | sequenceExpression expressions => expressions.map .inr
  | objectExpression properties =>
    .inl (.op .leftBrace) :: properties.map .inr ++ [.inl (.op .rightBrace)]
  | property key value isComputed isShorthand _ =>
    (if isComputed then [.inl (.op .leftBracket), .inr key, .inl (.op .rightBracket)] else [.inr key]) ++
      if isShorthand then [] else [.inl (.op .colon), .inr value]
  | functionExpression id params body traits | functionDeclaration id params body traits =>
    (if traits.isAsync then [.inl (.word "async")] else []) ++ .inl (.keyword .functionWord) ::
      (if traits.isGenerator then [.inl (.op .star)] else []) ++ id.toList.map .inr ++ params.map .inr ++
        [.inr body]
  | callExpression callee arguments _ => .inr callee :: arguments.map .inr
  | memberExpression object member isComputed _ =>
    .inr object :: if isComputed then [.inl (.op .leftBracket), .inr member, .inl (.op .rightBracket)]
      else [.inl (.op .dot), .inr member]
  | newExpression callee arguments => .inl (.keyword .newWord) :: .inr callee :: arguments.map .inr
  | thisExpression => [.inl (.keyword .thisWord)]
  | expressionStatement expression => [.inr expression]
  | emptyStatement => []
  | blockStatement body => .inl (.op .leftBrace) :: body.map .inr ++ [.inl (.op .rightBrace)]
  | ifStatement test consequent alternate =>
    .inl (.keyword .ifWord) :: .inr test :: .inr consequent ::
      alternate.toList.flatMap fun n => [.inl (.keyword .elseWord), .inr n]
  | whileStatement test body => [.inl (.keyword .whileWord), .inr test, .inr body]
  | forStatement init test update body =>
    .inl (.keyword .forWord) :: init.toList.map .inr ++ test.toList.map .inr ++ update.toList.map .inr ++
      [.inr body]
  | doWhileStatement body test =>
    [.inl (.keyword .doWord), .inr body, .inl (.keyword .whileWord), .inr test]
  | breakStatement label => .inl (.keyword .breakWord) :: label.toList.map .inr
  | continueStatement label => .inl (.keyword .continueWord) :: label.toList.map .inr
  | returnStatement argument => .inl (.keyword .returnWord) :: argument.toList.map .inr
  | tryStatement block handler finalizer =>
    .inl (.keyword .tryWord) :: .inr block :: handler.toList.map .inr ++
      finalizer.toList.flatMap fun n => [.inl (.keyword .finallyWord), .inr n]
  | catchClause param body => [.inl (.keyword .catchWord), .inr param, .inr body]
  | labeledStatement label body => [.inr label, .inl (.op .colon), .inr body]
  | debuggerStatement => [.inl (.keyword .debuggerWord)]
  | switchStatement discriminant cases =>
    .inl (.keyword .switchWord) :: .inr discriminant :: .inl (.op .leftBrace) :: cases.map .inr ++
      [.inl (.op .rightBrace)]
  | switchCase test consequent =>
    (match test with
      | some n => [.inl (.keyword .caseWord), .inr n]
      | none   => [.inl (.keyword .defaultWord)]) ++ .inl (.op .colon) :: consequent.map .inr
  | withStatement object body => [.inl (.keyword .withWord), .inr object, .inr body]
  | throwStatement argument => [.inl (.keyword .throwWord), .inr argument]
  | forInStatement left right body =>
    [.inl (.keyword .forWord), .inr left, .inl (.keyword .inWord), .inr right, .inr body]
  -- No script is read as this.
  | sourceCode _ => []

theorem parts_map (f : α → β) (form : Form α) : (form.map f).parts = form.parts.map (Sum.map id f) := by
  have htoList (o : Option α) : (o.map f).toList = o.toList.map f := by cases o <;> rfl
  cases form
  case switchCase test consequent => cases test <;> simp [map, parts]
  all_goals simp [map, parts, htoList, apply_ite (List.map (Sum.map id f)), List.map_flatMap,
    List.flatMap_map, Function.comp_def]

-- The faces of parts, if those of the children are given.
def facesOf (f : α → List Face) (parts : List (Face ⊕ α)) : List Face :=
  parts.flatMap (Sum.elim ([·]) f)

section facesOf

variable {f : α → List Face} {ps qs : List (Face ⊕ α)}

@[simp]
theorem facesOf_nil : facesOf f [] = [] :=
  rfl

@[simp]
theorem facesOf_cons_inl (face : Face) : facesOf f (.inl face :: ps) = face :: facesOf f ps :=
  rfl

@[simp]
theorem facesOf_cons_inr (n : α) : facesOf f (.inr n :: ps) = f n ++ facesOf f ps :=
  List.flatMap_cons

@[simp]
theorem facesOf_append : facesOf f (ps ++ qs) = facesOf f ps ++ facesOf f qs :=
  List.flatMap_append

@[simp]
theorem facesOf_map_inr (ns : List α) : facesOf f (ns.map .inr) = ns.flatMap f :=
  List.flatMap_map ..

@[simp]
theorem facesOf_flatMap (g : α → List (Face ⊕ α)) (ns : List α) :
    facesOf f (ns.flatMap g) = ns.flatMap fun n => facesOf f (g n) :=
  List.flatMap_assoc

@[simp]
theorem facesOf_ite (b : Bool) :
    facesOf f (if b then ps else qs) = if b then facesOf f ps else facesOf f qs :=
  apply_ite ..

end facesOf

-- The faces of a construct, if those of its children are given.
def spell (f : α → List Face) (form : Form α) : List Face :=
  facesOf f form.parts

theorem spell_map (f : α → β) (g : β → List Face) (form : Form α) :
    (form.map f).spell g = form.spell (g ∘ f) := by
  rw [spell, spell, parts_map, facesOf, List.flatMap_map]
  exact List.flatMap_congr fun part _ => by cases part <;> rfl

end Form

namespace Node

-- The tokens that the tree stands for.
def wording : Node → List Face :=
  fold fun _ form => form.spell id

theorem wording_mk (span : Span) (form : Form Node) : (mk span form).wording = form.spell wording := by
  have hfold : (mk span form).wording = (form.map wording).spell id := fold_eq _ _
  rw [hfold, Form.spell_map]
  rfl

theorem wording_bare (n : Node) : n.bare.wording = n.wording := by
  induction n using induct_nodes
  case h span form ih =>
    have hmap : form.map (wording ∘ bare) = form.map wording := Form.map_congr ih
    have hspell := congrArg (Form.spell id) hmap
    rw [Form.spell_map, Form.spell_map] at hspell
    rw [bare_mk, wording_mk, wording_mk, Form.spell_map]
    exact hspell

end Node

/-! ### What is passed between two cursors -/

namespace Cursor

variable {tokens : List Token} {c c' c'' : Cursor} {fs gs : List Face} {kind : TokenKind}

-- The stream is one of a scanner, to which the operators that are words are keywords.
structure IsScanned (tokens : List Token) : Prop where
  token   : ∀ t ∈ tokens, t.kind ≠ .endOfInput → t.IsScanned
  notWord : ∀ t ∈ tokens, ∀ op, t.kind = .operator op → op.isWord = false

theorem isScanned_ofSource (source : String) : IsScanned (Token.ofSource source true) :=
  ⟨fun _ ht => Token.isScanned_of_mem ht, fun _ ht _ => Token.not_isWord_of_mem ht⟩

-- The tokens from the one cursor to the other have these faces.
def Passes (c : Cursor) (fs : List Face) (c' : Cursor) : Prop :=
  ∃ ts, c.Block ts c' ∧ Token.wording ts = fs

theorem Passes.nil : c.Passes [] c :=
  ⟨[], .nil, rfl⟩

theorem Passes.append (h : c.Passes fs c') (h' : c'.Passes gs c'') : c.Passes (fs ++ gs) c'' := by
  obtain ⟨ts, hts, rfl⟩ := h
  obtain ⟨us, hus, rfl⟩ := h'
  exact ⟨ts ++ us, hts.append hus, Token.wording_append ts us⟩

-- One node is read on the way.
abbrev PassesNode (c : Cursor) (n : Node) (c' : Cursor) : Prop :=
  c.Passes n.wording c'

-- These nodes are read on the way.
abbrev PassesNodes (c : Cursor) (ns : List Node) (c' : Cursor) : Prop :=
  c.Passes (ns.flatMap Node.wording) c'

theorem PassesNode.some {n : Node} (h : c.PassesNode n c') : c.PassesNodes (some n).toList c' := by
  simpa [PassesNodes] using h

theorem PassesNodes.snoc {ns : List Node} {n : Node} (h : c.PassesNodes ns c') (hn : c'.PassesNode n c'') :
    c.PassesNodes (ns ++ [n]) c'' := by
  simpa [PassesNodes] using Passes.append h hn

namespace Takes

variable (h : c.Takes tokens kind c')
include h

theorem passes : c.Passes (Token.wording [c.current]) c' :=
  ⟨_, h.block, rfl⟩

theorem nothing (hk : kind.isEssential = false) : c.Passes [] c' := by
  have hpasses := h.passes
  rwa [Token.wording_singleton, h.kind, hk] at hpasses

theorem face (hk : kind.isEssential) : c.Passes [c.current.face] c' := by
  have hpasses := h.passes
  rwa [Token.wording_singleton, h.kind, if_pos hk] at hpasses

end Takes

theorem Passes.skip (h : c.Passes fs c') (ht : c'.Takes tokens kind c'') (hk : kind.isEssential = false) :
    c.Passes fs c'' :=
  List.append_nil fs ▸ h.append (ht.nothing hk)

theorem Takes.isScanned (h : c.Takes tokens kind c') (hs : IsScanned tokens) : c.current.IsScanned := by
  have hproper := h.proper
  simp only [Token.isProper, Bool.and_eq_true, bne_iff_ne] at hproper
  exact hs.token _ h.solid.mem hproper.2

theorem Takes.word (h : c.Takes tokens kind c') (hs : IsScanned tokens) (hk : kind.isWord) :
    c.Passes [.word c.current.value] c' := by
  have hess : kind.isEssential := by cases kind <;> first | rfl | cases hk
  rw [← (h.isScanned hs).face_eq_word (by rwa [Token.isWord, h.kind])]
  exact h.face hess

theorem Takes.keyword {k : Keyword} (h : c.Takes tokens (.keyword k) c') (hs : IsScanned tokens) :
    c.Passes [.keyword k] c' := by
  have hface := h.face rfl
  have hword := (h.isScanned hs).face_eq_word (by rw [Token.isWord, h.kind]; rfl)
  have hvalue := word_eq_of_keyword ((congrArg Face.kind hword).symm.trans h.kind)
  rw [String.ofList_toList] at hvalue
  rwa [Token.face, h.kind, hvalue] at hface

theorem Takes.op {op : Operator} (h : c.Takes tokens (.operator op) c') (hs : IsScanned tokens)
    (ho : (TokenKind.operator op).isEssential) : c.Passes [.op op] c' := by
  have hface := h.face ho
  have hword := hs.notWord _ h.solid.mem op h.kind
  have hop : Face.op op = ⟨.operator op, op.spelling⟩ := by cases op <;> first | rfl | cases hword
  rwa [hop, ← ((h.isScanned hs).of_operator h.kind).1, ← h.kind]

end Cursor

open Cursor

namespace Rule.Spans

variable {tokens : List Token} {c c₀ : Cursor} {kind : TokenKind} {fs : List Face}

-- A node that is made of what was read.
theorem passes {start : Nat} {form : Form Node} (h : c₀.Passes fs c)
    (hf : fs = form.spell Node.wording) :
    Spans tokens (do return .mk (← Rule.spanFrom start) form) c c₀.PassesNode :=
  read (fun _ => rfl) (.pure (by rwa [PassesNode, Node.wording_mk, ← hf]))

-- Only semicolons are consumed.
theorem terminator_passes : Spans tokens Rule.terminator c fun _ c' => c.Passes [] c' := by
  intro hc
  by_cases hk : c.current.kind = .operator .semicolon
  case pos =>
    rw [Follows.terminator_run_of_semicolon hk]
    obtain ⟨ts, hts, hkinds⟩ := hc.skipSemicolons_block
    refine ⟨hc.skipSemicolons.left, ts, hts, ?_⟩
    rw [Token.wording, List.filter_eq_nil_iff.mpr fun t ht => by rw [hkinds t ht]; exact Bool.false_ne_true]
    rfl
  case neg =>
    rw [Follows.terminator_run_of_ne hk]
    cases Follows.endsStatement c
    case true => exact ⟨hc.endStatement, [], ⟨rfl, rfl, Nat.le_refl _⟩, rfl⟩
    case false => trivial

theorem terminated_passes {start : Nat} {form : Form Node} (h : c₀.Passes fs c)
    (hf : fs = form.spell Node.wording) :
    Spans tokens (do Rule.terminator; return .mk (← Rule.spanFrom start) form) c c₀.PassesNode :=
  terminator_passes.bind fun _ _ ht => passes (h.append ht) (by rw [List.append_nil, hf])

end Rule.Spans

end ScriptTree
