import ScriptTree.Proofs.Parse.Semicolons
import ScriptTree.Proofs.Parse.Spells.Statement

/-!
Signs that are read as jumps, as blocks and what holds blocks, and as whole programs.
-/

namespace ScriptTree

open Node Rule Grammar

variable {scope : JumpScope} {n : Node} {ts us : List Sign} {span : Span}

/-! ### Jumps -/

-- What stands for a part that must stand on the same line as the word before it.
def OnLine (R : Node → List Sign → Prop) (n : Node) (ts : List Sign) : Prop :=
  R n ts ∧ ∀ t ∈ ts.head?, t.startsLine = false

theorem jumpLabel_reads {label : Option Node} {rest : List Sign} {c : Cursor} {b : Bool}
    (h : Maybe (OnLine IsName) label us) (hc : c.Shows (us ++ .op .semicolon b :: rest)) :
    Reads (Option.map bare) jumpLabel c (label.map bare) (.op .semicolon b :: rest) := by
  have hrun : jumpLabel.run c = (labelIf (startsJumpLabel c)).run c := rfl
  refine Reads.congr_run hrun ?_
  cases label
  case none =>
    obtain rfl : us = [] := h
    rw [show startsJumpLabel c = false by simp [startsJumpLabel, hc.kind]]
    exact .pure hc rfl
  case some n =>
    obtain ⟨h, hline⟩ := h
    obtain ⟨span, name, b', rfl, rfl, hk⟩ := id h
    obtain rfl : b' = false := hline _ rfl
    rw [show startsJumpLabel c = true by simp [startsJumpLabel, hc.kind, hk, hc.startsLine]]
    exact Reads.map (name_reads h hc) fun _ hn => congrArg some hn

theorem isStated_break {label : Option Node} {b b' : Bool} (hscope : scope.allowsBreak)
    (h : Maybe (OnLine IsName) label us) :
    IsStated scope (.mk span (.breakStatement label))
      (.keyword .breakWord b :: (us ++ [.op .semicolon b'])) := by
  refine isStated_of ⟨_, _, rfl, by simp; rfl, by simp⟩ fun d s rest c hs hc hd => .current ?_
  simp only [hc.kind, Sign.keyword_kind]
  simp only [List.cons_append, List.append_assoc, List.nil_append] at hc
  simp only [breakStatement, hscope]
  refine .start fun start => .skip_bind hc (by simp) fun c hc => ?_
  refine (jumpLabel_reads h hc).bind fun label' c hlabel hc => ?_
  exact terminated_reads hc (hs.semicolon rfl) (by simp [Form.map, hlabel])

theorem isStated_continue {label : Option Node} {b b' : Bool} (hscope : scope.allowsContinue)
    (h : Maybe (OnLine IsName) label us) :
    IsStated scope (.mk span (.continueStatement label))
      (.keyword .continueWord b :: (us ++ [.op .semicolon b'])) := by
  refine isStated_of ⟨_, _, rfl, by simp; rfl, by simp⟩ fun d s rest c hs hc hd => .current ?_
  simp only [hc.kind, Sign.keyword_kind]
  simp only [List.cons_append, List.append_assoc, List.nil_append] at hc
  simp only [continueStatement, hscope]
  refine .start fun start => .skip_bind hc (by simp) fun c hc => ?_
  refine (jumpLabel_reads h hc).bind fun label' c hlabel hc => ?_
  exact terminated_reads hc (hs.semicolon rfl) (by simp [Form.map, hlabel])

theorem returnArgument_reads {argument : Option Node} {rest : List Sign} {c : Cursor} {d : Nat} {b : Bool}
    (h : Maybe (OnLine (IsRead true true)) argument us)
    (hc : c.Shows (us ++ .op .semicolon b :: rest))
    (hd : 3 * (us ++ .op .semicolon b :: rest).length + 1 ≤ d) :
    Reads (Option.map bare) (ofDepth d).returnArgument c (argument.map bare)
      (.op .semicolon b :: rest) := by
  refine Reads.congr_run (returnArgument_run _ c) ?_
  cases argument
  case none =>
    obtain rfl : us = [] := h
    rw [show returnsNothing c = true by simp [returnsNothing, hc.kind]]
    exact .pure hc rfl
  case some n =>
    obtain ⟨h, hline⟩ := h
    obtain ⟨t, ts, rfl, ht⟩ := h.starts
    have hnothing : returnsNothing c = false := by
      have hne {kind} (hk : kind.startsExpression = false) : t.kind ≠ kind := fun h => by
        simp [h, hk] at ht
      simpa [returnsNothing, hc.kind, hc.startsLine, hline t rfl] using
        ⟨⟨hne rfl, hne rfl⟩, hne rfl⟩
    rw [hnothing]
    exact Reads.map (h.reads (Sign.ends_op rfl (by simp)) hc hd) fun _ hn => congrArg some hn

theorem isStated_return {argument : Option Node} {b b' : Bool} (hscope : scope.allowsReturn)
    (h : Maybe (OnLine (IsRead true true)) argument us) :
    IsStated scope (.mk span (.returnStatement argument))
      (.keyword .returnWord b :: (us ++ [.op .semicolon b'])) := by
  refine isStated_of ⟨_, _, rfl, by simp; rfl, by simp⟩ fun d s rest c hs hc hd => .current ?_
  simp only [hc.kind, Sign.keyword_kind]
  simp only [List.cons_append, List.append_assoc, List.nil_append] at hc hd
  simp only [returnStatement, hscope]
  refine .start fun start => .skip_bind hc (by simp) fun c hc => ?_
  refine (returnArgument_reads h hc (by simp at hd ⊢; omega)).bind fun argument' c ha hc => ?_
  exact terminated_reads hc (hs.semicolon rfl) (by simp [Form.map, ha])

/-! ### Labels and functions -/

theorem isStated_label {label : Node} {vs : List Sign} {b : Bool} (hlabel : IsName label us)
    (h : IsStated scope n vs) :
    IsStated scope (.mk span (.labeledStatement label n)) (us ++ .op .colon b :: vs) := by
  obtain ⟨span', name, b', rfl, rfl, hk⟩ := hlabel
  refine isStated_of ⟨_, _, rfl, by simp [hk]; rfl, by simp [hk]⟩ fun d s rest c hs hc hd => .current ?_
  simp only [hc.kind, hk]
  simp only [List.cons_append, List.nil_append] at hc hd
  have hasync : startsAsyncFunction c = false := by simp [startsAsyncFunction, hc.following]
  refine .read (fun _ => rfl) ?_
  rw [if_neg (by simp [hasync])]
  have hname : c.current.kind = .identifier := hc.kind.trans hk
  have htext := hc.text
  have hc := hc.advance (by simp [hk])
  have hrun := (ofDepth d).namedStatement_run scope hname
  rw [if_pos (by simp [startsLabel, hc.kind])] at hrun
  refine Reads.congr_run hrun (Reads.start fun start => Reads.run_bind (bindingIdentifier_run hname) ?_)
  refine .expecting hc rfl (by simp) fun c' hc => ?_
  have hlast : n.Precedes s := hs.last (by simp [Node.endsWithTerminator]) (by simp [Node.endsWithOpenIf])
  refine (h.reads hlast hc (by simp at hd ⊢; omega)).bind fun m c hm hc => ?_
  exact spanned_reads hc (by simp [Form.map, hm, identifierOf, bare_mk, htext])

theorem isStated_function {isAsync isGenerator b : Bool} {id : Node} {params : List Node} {body : Node}
    (h : IsFunction isGenerator (some id) params body ts) :
    IsStated scope (.mk span (.functionDeclaration (some id) params body { isAsync, isGenerator }))
      (asyncSigns isAsync b ++ ts) := by
  obtain ⟨b', us, hts⟩ := h.starts
  have hstarts : ∃ s vs, asyncSigns isAsync b ++ ts = s :: vs ∧ s.kind.startsStatement ∧
      (s.kind = .operator .semicolon → (Node.mk span (.functionDeclaration (some id) params body
        { isAsync, isGenerator })).type = .emptyStatement) := by
    cases isAsync
    case true => exact ⟨_, _, rfl, rfl, by simp [async_kind]⟩
    case false => exact ⟨_, _, hts, by simp; rfl, by simp⟩
  refine isStated_of hstarts fun d s rest c hs hc hd => .current ?_
  rw [List.append_assoc] at hc hd
  have hrule : Reads bare (FunctionParts.toDeclaration <$> (ofDepth d).function isAsync true) c
      (Node.bare (.mk span (.functionDeclaration (some id) params body { isAsync, isGenerator })))
      (s :: rest) := by
    refine Reads.map (function_reads h (by simp) hc (by simp at hd ⊢; omega)) fun f hf => ?_
    rw [FunctionParts.toDeclaration_of_bare hf, FunctionParts.toDeclaration, bare_mk, bare_mk]
  subst hts
  cases isAsync
  case true =>
    simp only [hc.kind, async_kind]
    exact .read (fun _ => rfl) (by rwa [if_pos (startsAsyncFunction_of_shows hc)])
  case false =>
    have hc : c.Shows (.keyword .functionWord b' :: (us ++ s :: rest)) := hc
    simpa only [hc.kind, Sign.keyword_kind] using hrule

/-! ### Blocks -/

-- Statements one after the other.
def Each (R : Node → List Sign → Prop) : List Node → List Sign → Prop
  | [], us => us = []
  | n :: ns, us => ∃ ts vs, us = ts ++ vs ∧ R n ts ∧ Each R ns vs

-- What may stand behind the last of some statements.
structure Sign.ClosesBody (s : Sign) : Prop where
  finallyWord : s.kind ≠ .keyword .finallyWord
  semicolon   : s.kind ≠ .operator .semicolon
  elseWord    : s.kind ≠ .keyword .elseWord

theorem Sign.ClosesBody.precedes {s : Sign} (h : s.ClosesBody) (n : Node) : n.Precedes s :=
  ⟨h.finallyWord, fun _ => h.semicolon, fun _ => h.elseWord⟩

theorem IsStated.precedes {m : Node} {rest : List Sign} (h : IsStated scope m us)
    (hm : n.endsWithTerminator → m.type ≠ .emptyStatement) :
    ∃ s ss, us ++ rest = s :: ss ∧ n.Precedes s := by
  obtain ⟨s, vs, rfl, hs, hempty⟩ := h.starts
  refine ⟨s, vs ++ rest, rfl, fun hk => ?_, fun hn hk => hm hn (hempty hk), fun _ hk => ?_⟩
  · rw [hk] at hs
    cases hs
  · rw [hk] at hs
    cases hs

-- A loop that reads statements up to what closes them.
theorem loop_body {β γ : Type} {k : β → γ} {round : List Node → Rule (Round (List Node) β)} {s : Sign}
    {rest out : List Sign} {x : List Node → γ} (bound : Nat) (hs : s.ClosesBody)
    (hfinish : ∀ ns c, c.Shows (s :: rest) →
      Reads (Round.map (List.map bare) k) (round ns) c (.finish (x (ns.map bare))) out)
    (hmore : ∀ ns n ts t tail c, IsStated scope n ts → n.Precedes t → c.Shows (ts ++ t :: tail) →
      (ts ++ t :: tail).length ≤ bound → Reads (Round.map (List.map bare) k) (round ns) c
        (.again (ns.map bare ++ [n.bare])) (t :: tail))
    {ns ms : List Node} {c : Cursor} {limit : Nat} (h : Each (IsStated scope) ms us)
    (hms : Separate ms) (hc : c.Shows (us ++ s :: rest)) (hb : (us ++ s :: rest).length ≤ bound)
    (hl : us.length < limit) :
    Reads k (loop limit round ns) c (x (ns.map bare ++ ms.map bare)) out := by
  obtain ⟨limit, rfl⟩ := Nat.exists_eq_add_one_of_ne_zero (Nat.ne_zero_of_lt hl)
  induction ms generalizing ns us c limit
  case nil =>
    obtain rfl : us = [] := h
    simpa using Reads.loop_finish (k := List.map bare) (hfinish ns c hc)
  case cons m ms ih =>
    obtain ⟨ts, vs, rfl, hm, h⟩ := h
    -- What stands behind the statement starts another one, or closes them all.
    obtain ⟨t, tail, ht, hprecedes⟩ : ∃ t tail, vs ++ s :: rest = t :: tail ∧ m.Precedes t := by
      cases ms
      case nil =>
        obtain rfl : vs = [] := h
        exact ⟨s, rest, rfl, hs.precedes m⟩
      case cons m' ms =>
        obtain ⟨ts', vs', rfl, hm', -⟩ := h
        rw [List.append_assoc]
        exact hm'.precedes (List.isChain_cons_cons.mp hms).1
    have hlength : 0 < ts.length := by
      obtain ⟨t, us, rfl, -⟩ := hm.starts
      simp
    obtain ⟨limit, rfl⟩ := Nat.exists_eq_add_one_of_ne_zero (n := limit) (by simp at hl; omega)
    rw [List.append_assoc] at hc hb
    refine Reads.loop_again (k := k) (hmore ns m ts t tail c hm hprecedes (ht ▸ hc) (ht ▸ hb))
      fun ns' c hns hc => ?_
    have h := @ih vs ns' c h hms.tail (ht ▸ hc) (by simp at hb ⊢; omega) limit (by simp at hl; omega)
    simpa [hns] using h

-- Statements that can stand one after the other.
def IsBody (scope : JumpScope) (ns : List Node) (ts : List Sign) : Prop :=
  Each (IsStated scope) ns ts ∧ Separate ns

theorem Sign.closesBody_op {b : Bool} : (Sign.op .rightBrace b).ClosesBody :=
  ⟨by simp, by simp, by simp⟩

-- What starts a statement does not close a block, nor does it start an arm.
theorem TokenKind.ne_of_startsStatement {kind kind' : TokenKind} (h : kind.startsStatement)
    (h' : kind'.startsStatement = false) : kind ≠ kind' := by
  rintro rfl
  simp [h] at h'

theorem isBlock_of {ns : List Node} {b b' : Bool} (h : IsBody scope ns us) :
    IsBlock scope (.mk span (.blockStatement ns))
      (.op .leftBrace b :: (us ++ [.op .rightBrace b'])) := by
  intro d s rest c hc hd
  simp only [List.cons_append, List.append_assoc, List.nil_append, List.length_cons,
    List.length_append] at hc hd
  refine .start fun start => .expecting hc rfl (by simp) fun c hc => ?_
  refine Reads.bind (e := List.map bare) (loop_body (x := id) (us ++ .op .rightBrace b' :: s :: rest).length
    Sign.closesBody_op (fun ns c hc => ?_) (fun ns n ts t tail c hn ht hc hb => ?_) h.1 h.2 hc
    (Nat.le_refl _) ?_) fun ns' c hns hc => spanned_reads hc (by simpa [Form.map] using hns)
  · exact .check_ite_of_eq hc rfl (.skip_bind hc (by simp) fun c hc => .pure hc rfl)
  · obtain ⟨u, vs, rfl, hu, -⟩ := hn.starts
    refine .check_ite_of_ne hc (TokenKind.ne_of_startsStatement hu rfl)
      (.isAtEnd_ite_of_ne hc (TokenKind.ne_of_startsStatement hu rfl) ?_)
    refine (hn.reads ht hc (by simp at hb ⊢; omega)).bind fun n c hn hc => ?_
    exact .pure hc (by simp [Round.map, hn])
  · change _ < d
    omega

theorem isStated_block {b : Bool} (h : IsBlock scope n (.op .leftBrace b :: us)) :
    IsStated scope n (.op .leftBrace b :: us) := by
  refine isStated_of ⟨_, _, rfl, rfl, by simp⟩ fun d s rest c hs hc hd => .current ?_
  simp only [hc.kind, Sign.op_kind]
  exact h hc (by omega)

/-! ### Handlers -/

def IsHandler (scope : JumpScope) (n : Node) (ts : List Sign) : Prop :=
  ∃ span param body b b₁ b₂ us vs, n = .mk span (.catchClause param body) ∧
    ts = .keyword .catchWord b :: .op .leftParen b₁ :: (us ++ .op .rightParen b₂ :: vs) ∧
    IsName param us ∧ IsBlock scope body vs

theorem handler_reads {s : Sign} {rest : List Sign} {c : Cursor} {d : Nat} (h : IsHandler scope n ts)
    (hc : c.Shows (ts ++ s :: rest)) (hd : 3 * (ts ++ s :: rest).length ≤ d + 1) :
    Reads bare ((ofDepth d).catchClause scope) c n.bare (s :: rest) := by
  obtain ⟨span, param, body, b, b₁, b₂, us, vs, rfl, rfl, hparam, hbody⟩ := h
  simp only [List.cons_append, List.append_assoc, List.length_cons, List.length_append] at hc hd
  refine .start fun start => .skip_bind hc (by simp) fun c hc => .expecting hc rfl (by simp)
    fun c hc => ?_
  refine (name_reads hparam hc).bind fun param' c hparam hc => .expecting hc rfl (by simp)
    fun c hc => ?_
  refine (hbody hc (by simp; omega)).bind fun body' c hbody hc => ?_
  exact spanned_reads hc (by simp [Form.map, hparam, hbody])

def IsFinalizer (scope : JumpScope) (n : Node) (ts : List Sign) : Prop :=
  ∃ b us, ts = .keyword .finallyWord b :: us ∧ IsBlock scope n us

theorem isStated_try {handler finalizer : Option Node} {vs ws : List Sign} {b : Bool}
    (hsome : handler.isSome ∨ finalizer.isSome) (hblock : IsBlock scope n us)
    (hhandler : Maybe (IsHandler scope) handler vs) (hfinalizer : Maybe (IsFinalizer scope) finalizer ws) :
    IsStated scope (.mk span (.tryStatement n handler finalizer))
      (.keyword .tryWord b :: (us ++ (vs ++ ws))) := by
  refine isStated_of ⟨_, _, rfl, by simp; rfl, by simp⟩ fun d s rest c hs hc hd => .current ?_
  simp only [hc.kind, Sign.keyword_kind]
  simp only [List.cons_append, List.append_assoc, List.length_cons, List.length_append] at hc hd
  refine .start fun start => .expecting hc (by simp) (by simp) fun c hc => ?_
  obtain ⟨t, tail, ht⟩ := List.exists_cons_of_ne_nil (l := vs ++ (ws ++ s :: rest)) (by simp)
  have hlength : tail.length + 1 = vs.length + (ws.length + (rest.length + 1)) := by
    simpa using (congrArg List.length ht).symm
  refine (hblock (ht ▸ hc) (by simp; omega)).bind fun block' c hblock hc => ?_
  rw [← ht] at hc
  -- The parts are put together once they are read, and before them the last part.
  have hlast {handler' finalizer' : Option Node} {c : Cursor}
      (hh : handler'.map bare = handler.map bare) (hf : finalizer'.map bare = finalizer.map bare)
      (hc : c.Shows (s :: rest)) : Reads bare (do
        if handler'.isNone && finalizer'.isNone then unexpected
        else return .mk (← spanFrom start) (.tryStatement block' handler' finalizer')) c
      (Node.bare (.mk span (.tryStatement n handler finalizer))) (s :: rest) := by
    rw [isNone_of_map_bare hh, isNone_of_map_bare hf, if_neg]
    · exact spanned_reads hc (by simp [Form.map, hblock, hh, hf])
    · cases handler <;> cases finalizer <;> simp_all
  have hrest {handler' : Option Node} {c : Cursor} (hh : handler'.map bare = handler.map bare)
      (hc : c.Shows (ws ++ s :: rest)) : Reads bare (do
        let finalizer ←
          if ← accept (.keyword .finallyWord) then some <$> (ofDepth d).block scope else pure none
        if handler'.isNone && finalizer.isNone then unexpected
        else return .mk (← spanFrom start) (.tryStatement block' handler' finalizer)) c
      (Node.bare (.mk span (.tryStatement n handler finalizer))) (s :: rest) := by
    cases finalizer
    case none =>
      obtain rfl : ws = [] := hfinalizer
      exact .accept_ite_of_ne hc hs.finallyWord (hlast hh rfl hc)
    case some finalizer =>
      obtain ⟨b, ws, rfl, hfinalizer⟩ := hfinalizer
      refine .accept_ite_of_eq hc (by simp) (by simp) fun c hc => .map_bind ?_
      refine (hfinalizer hc (by simp at hd ⊢; omega)).bind fun m c hm hc => ?_
      exact hlast hh (congrArg some hm) hc
  cases handler
  case none =>
    obtain rfl : vs = [] := hhandler
    obtain ⟨finalizer, rfl⟩ := Option.isSome_iff_exists.mp (hsome.resolve_left (by simp))
    obtain ⟨b, ws, rfl, -⟩ := id hfinalizer
    exact .check_ite_of_ne hc (by simp) (hrest rfl hc)
  case some handler =>
    have hhandler : IsHandler scope handler vs := hhandler
    obtain ⟨u, tail', hu⟩ := List.exists_cons_of_ne_nil (l := ws ++ s :: rest) (by simp)
    have hlength' : tail'.length + 1 = ws.length + (rest.length + 1) := by
      simpa using (congrArg List.length hu).symm
    rw [hu] at hc
    have hread := handler_reads hhandler hc (d := d) (by simp; omega)
    obtain ⟨span', param, body, b, b₁, b₂, us, vs, -, rfl, -⟩ := hhandler
    refine .check_ite_of_eq hc (by simp) (.map_bind (hread.bind fun m c hm hc => ?_))
    exact hrest (congrArg some hm) (hu ▸ hc)

/-! ### Switches -/

-- What an arm starts with.
def IsCaseTest (test : Option Node) (ts : List Sign) : Prop :=
  match test with
  | none => ∃ b, ts = [.keyword .defaultWord b]
  | some n => ∃ b us, ts = .keyword .caseWord b :: us ∧ IsRead true true n us

def IsCase (scope : JumpScope) (n : Node) (ts : List Sign) : Prop :=
  ∃ span test body b us vs, n = .mk span (.switchCase test body) ∧ ts = us ++ .op .colon b :: vs ∧
    IsCaseTest test us ∧ IsBody scope body vs

-- What stands behind an arm: another arm, or the end of the switch.
structure Sign.ClosesCase (s : Sign) : Prop where
  kind : s.kind = .keyword .caseWord ∨ s.kind = .keyword .defaultWord ∨ s.kind = .operator .rightBrace

theorem Sign.ClosesCase.closesBody {s : Sign} (h : s.ClosesCase) : s.ClosesBody := by
  rcases h.kind with hk | hk | hk <;> exact ⟨by simp [hk], by simp [hk], by simp [hk]⟩

theorem caseBody_reads {ns : List Node} {s : Sign} {rest : List Sign} {c : Cursor} {d : Nat}
    (h : IsBody scope ns us) (hs : s.ClosesCase) (hc : c.Shows (us ++ s :: rest))
    (hd : 3 * (us ++ s :: rest).length + 2 ≤ d) :
    Reads (List.map bare) ((ofDepth d).caseBody scope) c (ns.map bare) (s :: rest) := by
  refine loop_body (x := id) (us ++ s :: rest).length hs.closesBody (fun ns c hc => .current ?_)
    (fun ns n ts t tail c hn ht hc hb => .current ?_) h.1 h.2 hc (Nat.le_refl _) ?_
  · rw [if_pos (by rcases hs.kind with hk | hk | hk <;> simp [hc.kind, hk])]
    exact .pure hc rfl
  · obtain ⟨u, vs, rfl, hu, -⟩ := hn.starts
    have hne {kind} (hk : kind.startsStatement = false) : u.kind ≠ kind :=
      TokenKind.ne_of_startsStatement hu hk
    rw [if_neg (by
      simpa [hc.kind] using ⟨⟨hne rfl, hne rfl⟩, hne rfl⟩)]
    refine .isAtEnd_ite_of_ne hc (hne rfl) ?_
    refine (hn.reads ht hc (by simp at hb hd ⊢; omega)).bind fun n c hn hc => ?_
    exact .pure hc (by simp [Round.map, hn])
  · change _ < d
    simp at hd
    omega

theorem caseTest_reads {test : Option Node} {hasDefault b : Bool} {rest : List Sign} {c : Cursor} {d : Nat}
    (h : IsCaseTest test us) (hdefault : test = none → hasDefault = false)
    (hc : c.Shows (us ++ .op .colon b :: rest)) (hd : 3 * (us ++ .op .colon b :: rest).length ≤ d) :
    Reads (Prod.map (Option.map bare) id) ((ofDepth d).caseTest hasDefault) c
      (test.map bare, hasDefault || test.isNone) (.op .colon b :: rest) := by
  cases test
  case none =>
    obtain ⟨b', rfl⟩ := h
    obtain rfl : hasDefault = false := hdefault rfl
    refine .accept_ite_of_ne hc (by simp) (.read (fun _ => rfl) ?_)
    rw [if_pos (by simp [hc.kind])]
    exact .skip_bind hc (by simp) fun c hc => .pure hc rfl
  case some n =>
    obtain ⟨b', us, rfl, h⟩ := h
    refine .accept_ite_of_eq hc (by simp) (by simp) fun c hc => ?_
    refine (h.reads (Sign.ends_op rfl (by simp)) hc (by simp at hd ⊢; omega)).bind fun n c hn hc => ?_
    exact .pure hc (by simp [hn])

-- Looks for one more arm.
def Grammar.caseRound (g : Grammar) (scope : JumpScope) :
    List Node × Bool → Rule (Round (List Node × Bool) (List Node)) :=
  fun (cases, hasDefault) => do
    if ← accept (.operator .rightBrace) then return .finish cases
    else
      let caseStart ← Rule.start
      let (test, hasDefault) ← g.caseTest hasDefault
      discard <| expect (.operator .colon)
      let body ← g.caseBody scope.inSwitch
      return .again (cases ++ [.mk (← spanFrom caseStart) (.switchCase test body)], hasDefault)

theorem IsCase.starts (h : IsCase scope n ts) (rest : List Sign) : ∃ s us, ts ++ rest = s :: us ∧
    (s.kind = .keyword .caseWord ∨ s.kind = .keyword .defaultWord) := by
  obtain ⟨span, test, body, b, us, vs, rfl, rfl, htest, -⟩ := h
  cases test
  case none =>
    obtain ⟨b', rfl⟩ := htest
    exact ⟨_, _, rfl, .inr (by simp)⟩
  case some n =>
    obtain ⟨b', us, rfl, -⟩ := htest
    exact ⟨_, _, rfl, .inl (by simp)⟩

theorem caseRound_reads {cases : List Node} {hasDefault : Bool} {s : Sign} {rest : List Sign}
    {c : Cursor} {d : Nat} (h : IsCase scope.inSwitch n ts) (hs : s.ClosesCase)
    (hdefault : n.isDefaultCase → hasDefault = false) (hc : c.Shows (ts ++ s :: rest))
    (hd : 3 * (ts ++ s :: rest).length ≤ d) :
    Reads (Round.map (Prod.map (List.map bare) id) (List.map bare))
      ((ofDepth d).caseRound scope (cases, hasDefault)) c
      (.again (cases.map bare ++ [n.bare], hasDefault || n.isDefaultCase)) (s :: rest) := by
  obtain ⟨t, us', ht, hk⟩ := h.starts (s :: rest)
  refine .accept_ite_of_ne (ht ▸ hc) (by rcases hk with hk | hk <;> simp [hk])
    (.start fun start => ?_)
  obtain ⟨span, test, body, b, us, vs, rfl, rfl, htest, hbody⟩ := h
  have hisNone : (Node.mk span (.switchCase test body)).isDefaultCase = test.isNone := by
    cases test <;> rfl
  simp only [List.append_assoc, List.cons_append] at hc hd
  refine (caseTest_reads htest (fun h => hdefault (by rw [hisNone, h]; rfl)) hc
    (by simp at hd ⊢; omega)).bind fun (test', hasDefault') c htest hc => ?_
  obtain ⟨htest, hdefault⟩ := Prod.mk.inj htest
  refine .expecting hc rfl (by simp) fun c hc => ?_
  refine (caseBody_reads hbody hs hc (by simp at hd ⊢; omega)).bind fun body' c hbody hc => ?_
  refine .spanFrom fun span' => .pure hc ?_
  have hdefault : hasDefault' = (hasDefault || test.isNone) := hdefault
  simp [Round.map, bare_mk, Form.map, htest, hbody, hdefault, hisNone]

-- The arms are read, and the end of the switch.
theorem cases_reads {ns ms : List Node} {hasDefault b : Bool} {rest : List Sign} {c : Cursor}
    {d limit : Nat} (h : Each (IsCase scope.inSwitch) ms us)
    (hdefault : ms.countP Node.isDefaultCase + hasDefault.toNat ≤ 1)
    (hc : c.Shows (us ++ .op .rightBrace b :: rest))
    (hd : 3 * (us ++ .op .rightBrace b :: rest).length ≤ d) (hl : us.length < limit) :
    Reads (List.map bare) (loop limit ((ofDepth d).caseRound scope) (ns, hasDefault)) c
      (ns.map bare ++ ms.map bare) rest := by
  obtain ⟨limit, rfl⟩ := Nat.exists_eq_add_one_of_ne_zero (Nat.ne_zero_of_lt hl)
  induction ms generalizing ns us c limit hasDefault
  case nil =>
    obtain rfl : us = [] := h
    refine Reads.loop_finish (k := Prod.map (List.map bare) id) ?_
    exact .accept_ite_of_eq hc rfl (by simp) fun c hc => .pure hc (by simp [Round.map])
  case cons m ms ih =>
    obtain ⟨ts, vs, rfl, hm, h⟩ := h
    -- What stands behind the arm.
    obtain ⟨t, tail, ht, hcloses⟩ : ∃ t tail, vs ++ .op .rightBrace b :: rest = t :: tail ∧
        t.ClosesCase := by
      cases ms
      case nil =>
        obtain rfl : vs = [] := h
        exact ⟨_, rest, rfl, ⟨.inr (.inr rfl)⟩⟩
      case cons m' ms =>
        obtain ⟨ts', vs', rfl, hm', -⟩ := h
        obtain ⟨t, tail, ht, hk⟩ := hm'.starts (vs' ++ .op .rightBrace b :: rest)
        exact ⟨t, tail, by rw [List.append_assoc, ht], ⟨hk.imp_right .inl⟩⟩
    have hlength : 0 < ts.length := by
      obtain ⟨t, us, hts, -⟩ := hm.starts []
      have hts := congrArg List.length hts
      simp at hts
      omega
    obtain ⟨limit, rfl⟩ := Nat.exists_eq_add_one_of_ne_zero (n := limit) (by simp at hl; omega)
    rw [List.append_assoc] at hc hd
    have hfirst : m.isDefaultCase → hasDefault = false := fun hm => by
      cases hasDefault
      case false => rfl
      case true => simp [hm] at hdefault
    refine Reads.loop_again (k := List.map bare) (caseRound_reads hm hcloses hfirst (ht ▸ hc) (ht ▸ hd))
      fun read c hns hc => ?_
    obtain ⟨ns', hasDefault'⟩ := read
    obtain ⟨hns, hdefault'⟩ := Prod.mk.inj hns
    have hcount : ms.countP Node.isDefaultCase + hasDefault'.toNat ≤ 1 := by
      rw [show hasDefault' = (hasDefault || m.isDefaultCase) from hdefault']
      rw [List.countP_cons] at hdefault
      cases hasDefault <;> cases hm : m.isDefaultCase <;> simp [hm] at hdefault ⊢ <;> assumption
    have h := @ih vs ns' hasDefault' c h hcount (ht ▸ hc) (by simp at hd ⊢; omega) limit
      (by simp at hl; omega)
    simpa [hns] using h

theorem isStated_switch {cases : List Node} {vs : List Sign} {b b₁ b₂ b₃ b₄ : Bool}
    (hdefault : cases.countP Node.isDefaultCase ≤ 1) (hdiscriminant : IsRead true true n us)
    (hcases : Each (IsCase scope.inSwitch) cases vs) :
    IsStated scope (.mk span (.switchStatement n cases))
      (.keyword .switchWord b :: .op .leftParen b₁ :: (us ++ .op .rightParen b₂ ::
        .op .leftBrace b₃ :: (vs ++ [.op .rightBrace b₄]))) := by
  refine isStated_of ⟨_, _, rfl, by simp; rfl, by simp⟩ fun d s rest c hs hc hd => .current ?_
  simp only [hc.kind, Sign.keyword_kind]
  simp only [List.cons_append, List.append_assoc, List.nil_append, List.length_cons,
    List.length_append] at hc hd
  refine .start fun start => .expecting hc (by simp) (by simp) fun c hc => ?_
  refine (parenthesized_reads hdiscriminant hc (by simp; omega)).bind fun m c hm hc =>
    .expecting hc rfl (by simp) fun c hc => ?_
  have hloop : Reads (List.map bare) (loop d ((ofDepth d).caseRound scope) ([], false)) c
      (cases.map bare) (s :: rest) := by
    have hdefault : cases.countP Node.isDefaultCase + false.toNat ≤ 1 := by simpa using hdefault
    exact cases_reads hcases hdefault hc (by simp; omega) (by omega)
  refine hloop.bind fun cases' c hcases hc => ?_
  exact spanned_reads hc (by simp [Form.map, hm, hcases])

/-! ### Programs -/

theorem statements_reads {ns : List Node} {s : Sign} {c : Cursor} {d : Nat} (h : IsBody scope ns us)
    (hs : s.kind = .endOfInput) (hc : c.Shows (us ++ [s])) (hd : 3 * (us ++ [s]).length + 2 ≤ d) :
    Reads (List.map bare) ((ofDepth d).statements scope) c (ns.map bare) [s] := by
  have hcloses : s.ClosesBody := ⟨by simp [hs], by simp [hs], by simp [hs]⟩
  refine loop_body (x := id) (us ++ [s]).length hcloses (fun ns c hc => ?_)
    (fun ns n ts t tail c hn ht hc hb => ?_) h.1 h.2 hc (Nat.le_refl _) ?_
  · exact .isAtEnd_ite_of_eq hc hs (.pure hc rfl)
  · obtain ⟨u, vs, rfl, hu, -⟩ := hn.starts
    refine .isAtEnd_ite_of_ne hc (TokenKind.ne_of_startsStatement hu rfl) ?_
    refine (hn.reads ht hc (by simp at hb hd ⊢; omega)).bind fun n c hn hc => ?_
    exact .pure hc (by simp [Round.map, hn])
  · change _ < d
    simp at hd
    omega

theorem Cursor.ofTokens_shows (tokens : List Token) :
    (ofTokens tokens).Shows (Token.signs false tokens) := by
  refine ⟨ofTokens_rests tokens, ?_⟩
  have htrivia : ∀ t ∈ tokens.takeWhile Token.isTrivia, t.isTrivia := fun t ht =>
    List.mem_takeWhile_imp ht
  have h : Token.signs false (tokens.takeWhile Token.isTrivia ++ tokens.dropWhile Token.isTrivia) =
      Token.signs (false || (tokens.takeWhile Token.isTrivia).any Token.breaksLine)
        (tokens.dropWhile Token.isTrivia) := Token.signs_append htrivia
  rw [List.takeWhile_append_dropWhile] at h
  rw [h, isAfterLineBreak_eq, ofTokens, trivia, skipTrivia_eq]
  have hall : (tokens.takeWhile Token.isTrivia).reverse.takeWhile Token.isTrivia =
      (tokens.takeWhile Token.isTrivia).reverse :=
    List.takeWhile_eq_self_iff.mpr fun t ht => htrivia t (List.mem_reverse.mp ht)
  simp [hall]

-- A stream of tokens is read as the program whose statements its signs stand for.
theorem parse_bare {options : ParseOptions} {tokens : List Token} {ns : List Node} {s : Sign}
    (h : IsBody { allowsReturn := options.allowsReturn } ns us) (hs : s.kind = .endOfInput)
    (htokens : Token.signs false tokens = us ++ [s]) :
    ∃ n, parse options tokens = .ok n ∧
      n.bare = Node.bare (.mk span (.program ns options.sourceType)) := by
  have hlength : (us ++ [s]).length ≤ tokens.length := htokens ▸ Token.length_signs_le
  obtain ⟨ns', c, hrun, hns, -⟩ := statements_reads h hs
    (htokens ▸ Cursor.ofTokens_shows tokens) (d := sufficientDepth tokens)
    (by rw [sufficientDepth]; omega)
  have hrun : parseStatements options tokens = .ok (ns', c) := hrun
  refine ⟨_, by rw [parse, hrun], ?_⟩
  simp [bare_mk, Form.map, hns]

end ScriptTree
