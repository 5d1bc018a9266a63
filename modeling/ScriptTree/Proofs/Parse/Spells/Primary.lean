import ScriptTree.Proofs.Parse.Spells.Operand

/-!
Operands that stand for themselves: names, literals, arrays, objects and functions, and what stands
between parentheses.
-/

namespace ScriptTree

open Node Rule Grammar

variable {ends : Sign → Prop} {n : Node} {ts us : List Sign} {span span' : Span}

/-! ### Operands that stand for themselves -/

theorem isPrimary_of (h : ∀ ⦃d s rest c⦄, ends s → c.Shows (ts ++ s :: rest) →
    3 * (ts ++ s :: rest).length ≤ d + 1 →
    Reads bare (ofDepth d).primaryRule c n.bare (s :: rest)) : IsPrimary ends n ts := by
  intro d s rest c hs hc hd
  obtain ⟨d, rfl⟩ := Nat.exists_eq_add_one_of_ne_zero (n := d) (by simp at hd; omega)
  exact h hs hc hd

theorem isPrimary_identifier {name : String} {b : Bool} (hk : (Sign.word name b).kind = .identifier) :
    IsPrimary Sign.IsNoFunction (.mk span (.identifier name)) [.word name b] := by
  refine isPrimary_of fun d s rest c hs hc hd => .current ?_
  have hasync : startsAsyncFunction c = false := by
    have hs : (s.kind == .keyword .functionWord) = false := beq_eq_false_iff_ne.mpr hs
    rw [startsAsyncFunction, hc.following, hs, Bool.and_false]
  simp only [hc.kind, hk]
  refine .read (fun _ => rfl) ?_
  rw [if_neg (by simp [hasync])]
  refine Reads.map (.advance hc (by simp [hk])) fun t ht => identifierOf_bare ?_
  rw [show t = c.current from ht, hc.text]
  rfl

theorem isPrimary_this {b : Bool} :
    IsPrimary ends (.mk span .thisExpression) [.keyword .thisWord b] := by
  refine isPrimary_of fun d s rest c hs hc hd => .current ?_
  simp only [hc.kind, Sign.keyword_kind]
  exact .advance_bind hc (by simp) fun c' hc' => .pure hc' (by simp [bare_mk, Form.map])

theorem literal_reads {kind : LiteralKind} {t : Sign} {ss : List Sign} {c : Cursor}
    (ht : literalKind? t.token = some kind) (hc : c.Shows (t :: ss)) :
    Reads bare literal c (Node.bare (.mk span (.literal kind t.text))) ss := by
  have hkind : literalKind? c.current = some kind := by
    rw [← ht, literalKind?, hc.kind, hc.marks]
    rfl
  refine .current ?_
  simp only [hkind]
  refine .advance_bind hc (fun h => ?_) fun c' hc' => .pure hc' (by rw [bare_mk, bare_mk, hc.text])
  simp [literalKind?, Sign.token, h] at ht

theorem isPrimary_literal {kind : LiteralKind} {t : Sign} (ht : literalKind? t.token = some kind) :
    IsPrimary ends (.mk span (.literal kind t.text)) [t] := by
  refine isPrimary_of fun d s rest c hs hc hd => .current ?_
  have hrule : Reads bare literal c (Node.bare (.mk span (.literal kind t.text))) (s :: rest) :=
    literal_reads ht hc
  cases hk : t.kind <;> simp only [literalKind?, Sign.token, hk, reduceCtorEq] at ht <;>
    simpa only [hc.kind, hk, unaryOperator?] using hrule

theorem isPrimary_parenthesized {b b' : Bool} (h : IsRead true true n ts) :
    IsPrimary ends n (.op .leftParen b :: (ts ++ [.op .rightParen b'])) := by
  refine isPrimary_of fun d s rest c hs hc hd => .current ?_
  simp only [hc.kind, Sign.op_kind]
  simp only [List.append_assoc, List.cons_append, List.nil_append] at hc hd
  refine .expecting hc rfl (by simp) fun c hc => ?_
  refine (h.reads ?_ hc ?_).bind fun a c ha hc => ?_
  · exact Sign.ends_op rfl (by simp)
  · simp at hd ⊢
    omega
  · exact .expecting hc rfl (by simp) fun c hc => .pure hc ha

theorem isPrimary_construction {callee : Node} {ns : List Node} {b b' b'' : Bool}
    (hcallee : IsPlain callee ts) (hns : Listed (IsRead false true) ns us) :
    IsPrimary ends (.mk span (.newExpression callee ns))
      (.keyword .newWord b :: (ts ++ .op .leftParen b' :: (us ++ [.op .rightParen b'']))) := by
  refine isPrimary_of fun d s rest c hs hc hd => .current ?_
  simp only [hc.kind, Sign.keyword_kind]
  simp only [List.append_assoc, List.cons_append, List.nil_append, List.length_cons,
    List.length_append] at hc hd
  refine .start fun start => .expecting hc (by simp) (by simp) fun c hc => ?_
  let sequel : Sequel := fun g _ callee => do
    let arguments ← if ← check (.operator .leftParen) then g.arguments else pure []
    return .mk (← spanFrom start) (.newExpression callee arguments)
  refine hcallee sequel (by simp [Sign.IsNoFunction]) hc (by simp; omega)
    (fun a c k l ha hc hk hl => ?_) (k := d) (l := 2 * d) (by simp; omega) (by simp; omega)
  obtain ⟨k, rfl⟩ := Nat.exists_eq_add_one_of_ne_zero (Nat.ne_zero_of_lt hk)
  refine Reads.loop_finish_bind (access_run_of_ne (by simp [hc.kind]) (by simp [hc.kind])) ?_
  refine .check_ite_of_eq hc rfl ((arguments_reads hns hc (by simp; omega)).bind fun ms c hms hc => ?_)
  exact spanned_reads hc (by simp [Form.map, ha, hms])

theorem isOperand_unary {operator : UnaryOperator} {t : Sign} (ht : unaryOperator? t.kind = some operator)
    (h : IsOperand n ts) : IsOperand (.mk span (.unaryExpression operator true n)) (t :: ts) := by
  refine fun allows => (isPrimary_of fun d s rest c hs hc hd => .current ?_).leads
  have hne : t.kind ≠ .endOfInput := fun h => by simp [unaryOperator?, h] at ht
  have hrule : Reads bare ((ofDepth d).unary operator) c
      (Node.bare (.mk span (.unaryExpression operator true n))) (s :: rest) := by
    refine .advance_bind hc hne fun c' hc' => ?_
    refine (h.reads hs hc' (by simp at hd ⊢; omega)).bind fun a c ha hc => ?_
    exact spanned_reads hc (by simp [Form.map, ha])
  unfold unaryOperator? at ht
  split at ht
  case h_8 => cases ht
  all_goals
    rename_i hk
    cases ht
    simpa only [hc.kind, hk, unaryOperator?] using hrule

theorem isOperand_prefixUpdate {operator : UpdateOperator} {b : Bool} (h : IsOperand n ts)
    (hn : n.isAssignable) :
    IsOperand (.mk span (.updateExpression operator true n)) (.op operator.toOperator b :: ts) := by
  refine fun allows => (isPrimary_of fun d s rest c hs hc hd => .current ?_).leads
  have hrule : Reads bare ((ofDepth d).prefixUpdate operator) c
      (Node.bare (.mk span (.updateExpression operator true n))) (s :: rest) := by
    refine .advance_bind hc (by simp) fun c' hc' => ?_
    refine (h.reads hs hc' (by simp at hd ⊢; omega)).bind fun a c ha hc => ?_
    rw [isAssignable_of_bare ha, if_pos hn]
    exact spanned_reads hc (by simp [Form.map, ha])
  cases operator <;> simpa only [hc.kind, Sign.op_kind, UpdateOperator.toOperator] using hrule

/-! ### Arrays and objects -/

-- Holed with commas between them. The comma behind a hole is part of it.
def Holed (R : Node → List Sign → Prop) : List (Option Node) → List Sign → Prop
  | [], us => us = []
  | none :: es, us => ∃ b vs, us = .op .comma b :: vs ∧ Holed R es vs
  | some n :: es, us => ∃ ts vs, us = ts ++ vs ∧ R n ts ∧
      (es = [] ∧ vs = [] ∨ ∃ b ws, vs = .op .comma b :: ws ∧ Holed R es ws)

-- Looks for one more element.
def Grammar.elementRound (g : Grammar) (elements : List (Option Node)) :
    Rule (Round (List (Option Node)) (List (Option Node))) := do
  if ← accept (.operator .rightBracket) then return .finish elements
  else if ← isAtEnd then unexpected
  else if ← accept (.operator .comma) then return .again (elements ++ [none])
  else
    let elements := elements ++ [some (← g.expression false true)]
    if ← accept (.operator .rightBracket) then return .finish elements
    else
      discard <| expect (.operator .comma)
      return .again elements

section elementRound

variable {d : Nat} {rest : List Sign} {b : Bool} {c : Cursor} {acc : List (Option Node)}

theorem elementRound_end {g : Grammar} (hc : c.Shows (.op .rightBracket b :: rest)) :
    Reads (Round.map id (List.map (Option.map bare))) (g.elementRound acc) c
      (.finish (acc.map (Option.map bare))) rest :=
  .accept_ite_of_eq hc rfl (by simp) fun c hc => .pure hc rfl

theorem elementRound_hole {g : Grammar} (hc : c.Shows (.op .comma b :: rest)) :
    Reads (Round.map (List.map (Option.map bare)) id) (g.elementRound acc) c
      (.again (acc.map (Option.map bare) ++ [none])) rest := by
  refine .accept_ite_of_ne hc (by simp) (.isAtEnd_ite_of_ne hc (by simp) ?_)
  exact .accept_ite_of_eq hc rfl (by simp) fun c hc => .pure hc (by simp [Round.map])

-- An element, and the rest of its round.
theorem elementRound_some {γ δ : Type} {e : List (Option Node) → γ} {e' : List (Option Node) → δ}
    {operator : Operator} {x : Round γ δ} {out : List Sign} (hn : IsRead false true n ts)
    (hc : c.Shows (ts ++ .op operator b :: rest))
    (hd : 3 * (ts ++ .op operator b :: rest).length + 1 ≤ d) (hop : operator.closes)
    (hround : ∀ n' c, n'.bare = n.bare → c.Shows (.op operator b :: rest) →
      Reads (Round.map e e') (do
        if ← accept (.operator .rightBracket) then return .finish (acc ++ [some n'])
        else
          discard <| expect (.operator .comma)
          return .again (acc ++ [some n'])) c x out) :
    Reads (Round.map e e') ((ofDepth d).elementRound acc) c x out := by
  obtain ⟨t, us, rfl, ht⟩ := hn.starts
  have hne {kind} (hk : kind.startsExpression = false) : t.kind ≠ kind := fun h => by
    simp [h, hk] at ht
  refine .accept_ite_of_ne hc (hne rfl) (.isAtEnd_ite_of_ne hc (hne rfl)
    (.accept_ite_of_ne hc (hne rfl) ?_))
  exact (hn.reads (Sign.ends_op hop nofun) hc hd).bind fun n' c hn hc => hround n' c hn hc

theorem elements_reads {limit : Nat} {es : List (Option Node)} (acc : List (Option Node))
    (h : Holed (IsRead false true) es us)
    (hc : c.Shows (us ++ .op .rightBracket b :: rest))
    (hd : 3 * (us ++ .op .rightBracket b :: rest).length + 1 ≤ d) (hl : us.length < limit) :
    Reads (List.map (Option.map bare)) (loop limit (ofDepth d).elementRound acc) c
      (acc.map (Option.map bare) ++ es.map (Option.map bare)) rest := by
  induction limit generalizing es us c acc
  case zero => cases hl
  case succ limit ih =>
    rcases es with _ | ⟨_ | n, es⟩
    case nil =>
      obtain rfl : us = [] := h
      simpa using Reads.loop_finish (elementRound_end hc)
    case cons.none =>
      obtain ⟨b, vs, rfl, h⟩ := h
      refine Reads.loop_again (elementRound_hole hc) fun acc' c hacc hc => ?_
      simpa [hacc] using ih acc' h hc (by simp at hd ⊢; omega) (by simp at hl; omega)
    case cons.some =>
      obtain ⟨ts, vs, rfl, hn, h⟩ := h
      simp only [List.append_assoc] at hc hd
      rcases h with ⟨rfl, rfl⟩ | ⟨b', ws, rfl, h⟩
      · refine Reads.loop_finish (k := List.map (Option.map bare)) (elementRound_some hn hc hd rfl
          fun n' c hn hc => ?_)
        exact .accept_ite_of_eq hc rfl (by simp) fun c hc => .pure hc (by simp [Round.map, hn])
      · have hmore : Reads (Round.map (List.map (Option.map bare)) (List.map (Option.map bare)))
            ((ofDepth d).elementRound acc) c (.again (acc.map (Option.map bare) ++ [some n.bare]))
            (ws ++ .op .rightBracket b :: rest) := by
          refine elementRound_some hn hc hd rfl fun n' c hn hc => ?_
          refine .accept_ite_of_ne hc (by simp) (.expecting hc rfl (by simp) fun c hc => ?_)
          exact .pure hc (by simp [Round.map, hn])
        refine Reads.loop_again hmore fun acc' c hacc hc => ?_
        simpa [hacc] using ih acc' h hc (by simp at hd ⊢; omega) (by simp at hl; omega)

end elementRound

theorem isPrimary_array {es : List (Option Node)} {b b' : Bool}
    (h : Holed (IsRead false true) es us) :
    IsPrimary ends (.mk span (.arrayExpression es))
      (.op .leftBracket b :: (us ++ [.op .rightBracket b'])) := by
  refine isPrimary_of fun d s rest c hs hc hd => .current ?_
  simp only [hc.kind, Sign.op_kind]
  simp only [List.append_assoc, List.cons_append, List.nil_append, List.length_cons,
    List.length_append] at hc hd
  refine .start fun start => .expecting hc rfl (by simp) fun c hc => ?_
  refine (elements_reads [] h hc (by simp; omega) ?_).bind fun es' c hes hc => ?_
  · change us.length < d
    omega
  · exact spanned_reads hc (by simpa [Form.map] using hes)

/-! ### Objects -/

-- What stands for the key of a property.
def IsKey (n : Node) (ts : List Sign) : Prop :=
  (∃ span name b, n = .mk span (.identifier name) ∧ ts = [.word name b] ∧
    (Sign.word name b).kind.isWord) ∨
  ∃ span kind t, n = .mk span (.literal kind t.text) ∧ ts = [t] ∧
    literalKind? t.token = some kind ∧ (t.kind = .string ∨ t.kind = .number)

def IsProperty (n : Node) (ts : List Sign) : Prop :=
  ∃ span key value us b vs, n = .mk span (.property key value false false false) ∧
    ts = us ++ .op .colon b :: vs ∧ IsKey key us ∧ IsRead false true value vs

theorem key_reads {ss : List Sign} {c : Cursor} (h : IsKey n ts) (hc : c.Shows (ts ++ ss)) :
    Reads bare propertyKey c n.bare ss := by
  refine .current ?_
  rcases h with ⟨span, name, b, rfl, rfl, hw⟩ | ⟨span, kind, t, rfl, rfl, ht, hk⟩
  · have hne {kind} (hk : kind.isWord = false) : (Sign.word name b).kind ≠ kind := fun h => by
      simp [h, hk] at hw
    have hword : c.current.isWord := by rw [Token.isWord, hc.kind, hw]
    rw [if_neg (by simpa [hc.kind] using ⟨hne rfl, hne rfl⟩), if_pos hword]
    refine Reads.map (.advance hc (hne rfl)) fun t ht => identifierOf_bare ?_
    rw [show t = c.current from ht, hc.text]
    rfl
  · rw [if_pos (by simpa [hc.kind] using hk)]
    exact literal_reads ht hc

theorem IsKey.starts (h : IsKey n ts) : ∃ t us, ts = t :: us ∧
    (∀ operator, t.kind ≠ .operator operator) ∧ t.kind ≠ .endOfInput := by
  rcases h with ⟨span, name, b, -, rfl, hw⟩ | ⟨span, kind, t, -, rfl, -, hk⟩
  · refine ⟨_, _, rfl, fun operator h => ?_, fun h => ?_⟩ <;> simp [h, TokenKind.isWord] at hw
  · refine ⟨_, _, rfl, fun operator h => ?_, fun h => ?_⟩ <;> simp [h] at hk

theorem property_reads {operator : Operator} {b : Bool} {rest : List Sign} {c : Cursor} {d : Nat}
    (h : IsProperty n ts) (hop : operator.closes) (hc : c.Shows (ts ++ .op operator b :: rest))
    (hd : 3 * (ts ++ .op operator b :: rest).length + 1 ≤ d) :
    Reads bare (ofDepth d).property c n.bare (.op operator b :: rest) := by
  obtain ⟨span, key, value, us, b', vs, rfl, rfl, hkey, hvalue⟩ := h
  simp only [List.append_assoc, List.cons_append] at hc hd
  refine (key_reads hkey hc).bind fun key' c hkey hc => .expecting hc rfl (by simp) fun c hc => ?_
  refine (hvalue.reads (Sign.ends_op hop nofun) hc (by simp at hd ⊢; omega)).bind fun value' c hvalue hc => ?_
  exact spanned_reads hc (by simp [Form.map, hkey, hvalue])

-- Looks for one more property.
def Grammar.propertyRound (g : Grammar) (properties : List Node) :
    Rule (Round (List Node) (List Node)) := do
  if ← accept (.operator .rightBrace) then return .finish properties
  else if ← isAtEnd then unexpected
  else
    let properties := properties ++ [← g.property]
    if ← accept (.operator .rightBrace) then return .finish properties
    else
      discard <| expect (.operator .comma)
      if ← check (.operator .comma) then unexpected
      else return .again properties

theorem IsProperty.starts (h : IsProperty n ts) :
    ∃ t us, ts = t :: us ∧ (∀ operator, t.kind ≠ .operator operator) ∧ t.kind ≠ .endOfInput := by
  obtain ⟨span, key, value, us, b', vs, rfl, rfl, hkey, -⟩ := h
  obtain ⟨t, ws, rfl, hop, he⟩ := hkey.starts
  exact ⟨t, _, rfl, hop, he⟩

theorem isPrimary_object {ns : List Node} {b b' : Bool} (h : Listed IsProperty ns us) :
    IsPrimary ends (.mk span (.objectExpression ns))
      (.op .leftBrace b :: (us ++ [.op .rightBrace b'])) := by
  refine isPrimary_of fun d s rest c hs hc hd => .current ?_
  simp only [hc.kind, Sign.op_kind]
  simp only [List.append_assoc, List.cons_append, List.nil_append, List.length_cons,
    List.length_append] at hc hd
  refine .start fun start => .expecting hc rfl (by simp) fun c hc => ?_
  have hloop : Reads (List.map bare) (loop d (ofDepth d).propertyRound []) c (ns.map bare)
      (s :: rest) := by
    refine loop_listed (us ++ .op .rightBrace b' :: s :: rest).length (fun ns c hc => ?_)
      (fun ns n ts c hn hc hb => ?_) (fun ns n n' ts ts' b vs c hn hn' hc hb => ?_) h hc
      (Nat.le_refl _) (by omega)
    · exact .accept_ite_of_eq hc rfl (by simp) fun c hc => .pure hc rfl
    · obtain ⟨t, vs, rfl, hop, he⟩ := hn.starts
      refine .accept_ite_of_ne hc (hop _) (.isAtEnd_ite_of_ne hc he ?_)
      refine (property_reads hn rfl hc (by simp at hb ⊢; omega)).bind fun n c hn hc => ?_
      exact .accept_ite_of_eq hc rfl (by simp) fun c hc => .pure hc (by simp [Round.map, hn])
    · obtain ⟨t, ws, rfl, hop, he⟩ := hn.starts
      obtain ⟨t', ws', rfl, hop', -⟩ := hn'.starts
      refine .accept_ite_of_ne hc (hop _) (.isAtEnd_ite_of_ne hc he ?_)
      refine (property_reads hn rfl hc (by simp at hb ⊢; omega)).bind fun n c hn hc => ?_
      refine .accept_ite_of_ne hc (by simp) (.expecting hc rfl (by simp) fun c hc => ?_)
      exact .check_ite_of_ne hc (hop' _) (.pure hc (by simp [Round.map, hn]))
  exact hloop.bind fun ns' c hns hc => spanned_reads hc (by simp [Form.map, hns])

/-! ### Functions -/

def IsName (n : Node) (ts : List Sign) : Prop :=
  ∃ span name b, n = .mk span (.identifier name) ∧ ts = [.word name b] ∧
    (Sign.word name b).kind = .identifier

-- What stands for a part that may be missing.
def Maybe (R : Node → List Sign → Prop) : Option Node → List Sign → Prop
  | none, ts => ts = []
  | some n, ts => R n ts

-- Statements between braces, read as a body.
def IsBlock (scope : JumpScope) (n : Node) (ts : List Sign) : Prop :=
  ∀ ⦃d s rest c⦄, c.Shows (ts ++ s :: rest) → 3 * (ts ++ s :: rest).length ≤ d + 1 →
    Reads bare ((ofDepth d).block scope) c n.bare (s :: rest)

theorem name_reads {ss : List Sign} {c : Cursor} (h : IsName n ts) (hc : c.Shows (ts ++ ss)) :
    Reads bare bindingIdentifier c n.bare ss := by
  obtain ⟨span, name, b, rfl, rfl, hk⟩ := h
  refine (Reads.expect hc hk (by simp)).bind fun t c' ht hc' => .pure hc' (identifierOf_bare ?_)
  rw [show t = c.current from ht, hc.text]
  rfl

theorem params_reads {ns : List Node} {rest : List Sign} {b b' : Bool} {c : Cursor} {d : Nat}
    (h : Listed IsName ns us)
    (hc : c.Shows (.op .leftParen b :: (us ++ .op .rightParen b' :: rest)))
    (hd : us.length < d) : Reads (List.map bare) (ofDepth d).params c (ns.map bare) rest := by
  refine .expecting hc rfl (by simp) fun c hc => ?_
  refine listRound_reads (us ++ .op .rightParen b' :: rest).length (by simp)
    (fun n ts hn => ?_) (fun n ts op b rest c hn hop hc hb => name_reads hn hc) h hc
    (Nat.le_refl _) hd
  obtain ⟨span, name, b, rfl, rfl, hk⟩ := hn
  exact ⟨_, _, rfl, by simp [hk]⟩

-- What stands for a function, from the word `function` on.
def IsFunction (isGenerator : Bool) (name : Option Node) (params : List Node) (body : Node)
    (ts : List Sign) : Prop :=
  ∃ b b' b'' vs us ws star,
    ts = .keyword .functionWord b ::
      (star ++ (vs ++ .op .leftParen b' :: (us ++ .op .rightParen b'' :: ws))) ∧
    star = (if isGenerator then [.op .star false] else []) ∧
    Maybe IsName name vs ∧ Listed IsName params us ∧ IsBlock .functionBody body ws

theorem functionRest_reads {isAsync isGenerator : Bool} {name name' : Option Node} {params : List Node}
    {body : Node} {ws rest : List Sign} {b b' : Bool} {c : Cursor} {s : Sign} {start d : Nat}
    (hname : name'.map bare = name.map bare) (hparams : Listed IsName params us)
    (hbody : IsBlock .functionBody body ws)
    (hc : c.Shows (.op .leftParen b :: (us ++ .op .rightParen b' :: (ws ++ s :: rest))))
    (hd : 3 * (.op .leftParen b :: (us ++ .op .rightParen b' :: (ws ++ s :: rest)) :
      List Sign).length ≤ d + 1) :
    Reads FunctionParts.bare ((ofDepth d).functionRest start isAsync isGenerator name') c
      (FunctionParts.bare ⟨nowhere, name, params, body, { isAsync, isGenerator }⟩) (s :: rest) := by
  simp only [List.length_cons, List.length_append] at hd
  refine (params_reads hparams hc (by omega)).bind fun ps c hps hc => ?_
  refine (hbody hc (by simp; omega)).bind fun body' c hbody hc => .spanFrom fun span => ?_
  exact .pure hc (by simp [FunctionParts.bare, hname, hps, hbody])

theorem functionFrom_reads {isAsync isGenerator needsName : Bool} {name : Option Node}
    {params : List Node} {body : Node} {rest : List Sign} {c : Cursor} {s : Sign} {start d : Nat}
    (h : IsFunction isGenerator name params body ts) (hn : needsName → name.isSome)
    (hc : c.Shows (ts ++ s :: rest)) (hd : 3 * (ts ++ s :: rest).length ≤ d + 1) :
    Reads FunctionParts.bare ((ofDepth d).functionFrom start isAsync needsName) c
      (FunctionParts.bare ⟨nowhere, name, params, body, { isAsync, isGenerator }⟩) (s :: rest) := by
  obtain ⟨b, b', b'', vs, us, ws, star, rfl, hstar, hname, hparams, hbody⟩ := h
  simp only [List.cons_append, List.append_assoc, List.length_cons, List.length_append] at hc hd
  refine .expecting hc (by simp) (by simp) fun c hc => ?_
  have hafter {c} (hc : c.Shows (vs ++ .op .leftParen b' :: (us ++ .op .rightParen b'' ::
      (ws ++ s :: rest)))) : Reads FunctionParts.bare (do
        let id ←
          if ← check .identifier then some <$> bindingIdentifier
          else if needsName then unexpected
          else pure none
        (ofDepth d).functionRest start isAsync isGenerator id) c
      (FunctionParts.bare ⟨nowhere, name, params, body, { isAsync, isGenerator }⟩) (s :: rest) := by
    cases name
    case none =>
      obtain rfl : vs = [] := hname
      obtain rfl : needsName = false := by simpa using hn
      refine .check_ite_of_ne hc (by simp) ?_
      exact functionRest_reads rfl hparams hbody hc (by simp; omega)
    case some name =>
      have hname : IsName name vs := hname
      obtain ⟨span, text, b, -, rfl, hk⟩ := id hname
      refine .check_ite_of_eq hc hk (.map_bind ((name_reads hname hc).bind fun name' c hn hc => ?_))
      exact functionRest_reads (congrArg some hn) hparams hbody hc (by simp; omega)
  cases isGenerator
  case true =>
    obtain rfl : star = [.op .star false] := hstar
    refine Reads.bind (e := id) (b := true) ⟨_, _, Follows.accept_run_of_eq hc.kind, rfl, hc.advance (by simp)⟩ ?_
    rintro _ c rfl hc
    exact hafter hc
  case false =>
    obtain rfl : star = [] := hstar
    have hne : c.current.kind ≠ .operator .star := by
      cases name
      case none =>
        obtain rfl : vs = [] := hname
        simp [hc.kind]
      case some name =>
        obtain ⟨span, text, b, -, rfl, hk⟩ := hname
        simp [hc.kind, hk]
    refine Reads.bind (e := id) (b := false) ⟨_, _, Follows.accept_run_of_ne hne, rfl, hc⟩ ?_
    rintro _ c rfl hc
    exact hafter hc

-- The word in front of an asynchronous function, if it is one.
def asyncSigns (isAsync b : Bool) : List Sign :=
  if isAsync then [.word "async" b] else []

theorem async_kind (b : Bool) : (Sign.word "async" b).kind = .identifier :=
  rfl

theorem function_reads {isAsync isGenerator needsName : Bool} {name : Option Node}
    {params : List Node} {body : Node} {rest : List Sign} {c : Cursor} {s : Sign} {d : Nat} {b : Bool}
    (h : IsFunction isGenerator name params body ts) (hn : needsName → name.isSome)
    (hc : c.Shows (asyncSigns isAsync b ++ (ts ++ s :: rest)))
    (hd : 3 * (ts ++ s :: rest).length ≤ d + 1) :
    Reads FunctionParts.bare ((ofDepth d).function isAsync needsName) c
      (FunctionParts.bare ⟨nowhere, name, params, body, { isAsync, isGenerator }⟩) (s :: rest) := by
  rw [function_eq]
  refine .start fun start => ?_
  cases isAsync
  case true => exact .skip_bind hc (by simp [async_kind]) fun c hc => functionFrom_reads h hn hc hd
  case false => exact functionFrom_reads h hn hc hd

theorem IsFunction.starts {isGenerator : Bool} {name : Option Node} {params : List Node} {body : Node}
    (h : IsFunction isGenerator name params body ts) : ∃ b us, ts = .keyword .functionWord b :: us := by
  obtain ⟨b, b', b'', vs, us, ws, star, rfl, -⟩ := h
  exact ⟨_, _, rfl⟩

theorem startsAsyncFunction_of_shows {b b' : Bool} {ss : List Sign} {c : Cursor}
    (hc : c.Shows (.word "async" b :: .keyword .functionWord b' :: ss)) : startsAsyncFunction c := by
  rw [startsAsyncFunction, hc.kind, hc.text, hc.following]
  rfl

theorem isPrimary_function {isAsync isGenerator b : Bool} {name : Option Node} {params : List Node}
    {body : Node} (h : IsFunction isGenerator name params body ts) :
    IsPrimary ends (.mk span (.functionExpression name params body { isAsync, isGenerator }))
      (asyncSigns isAsync b ++ ts) := by
  refine isPrimary_of fun d s rest c hs hc hd => .current ?_
  rw [List.append_assoc] at hc hd
  have hrule : Reads bare (FunctionParts.toExpression <$> (ofDepth d).function isAsync false) c
      (Node.bare (.mk span (.functionExpression name params body { isAsync, isGenerator })))
      (s :: rest) := by
    refine Reads.map (function_reads h nofun hc (by simp at hd ⊢; omega)) fun f hf => ?_
    rw [FunctionParts.toExpression_of_bare hf, FunctionParts.toExpression, bare_mk, bare_mk]
  obtain ⟨b', us, rfl⟩ := h.starts
  cases isAsync
  case true =>
    simp only [hc.kind, async_kind]
    exact .read (fun _ => rfl) (by rwa [if_pos (startsAsyncFunction_of_shows hc)])
  case false =>
    have hc : c.Shows (.keyword .functionWord b' :: (us ++ s :: rest)) := hc
    simpa only [hc.kind, Sign.keyword_kind] using hrule

end ScriptTree
