import ScriptTree.Proofs.Parse.Semicolons
import ScriptTree.Proofs.Parse.Spans.Statement
import ScriptTree.Proofs.Token.Rescan

/-!
The spans of a script nest. Each is made of whole tokens, children stand one behind the other inside of
their parent, and names and literals are the source text at their place.
-/

namespace ScriptTree

open Rule Cursor

/-! ### Tokens of a source -/

namespace Token

section tiles

variable {source : List Char} {limit start stop : Nat} {t : Token} {ts : List Token}

theorem IsCut.holds (h : t.IsCut source limit) : t.span.Holds source t.value.toList := by
  cases t
  exact h.2.2.1

theorem IsCut.width (h : t.IsCut source limit) : t.span.start < t.span.stop := by
  have hv : t.value ≠ "" := by
    cases t
    exact h.2.1
  obtain ⟨before, after, _, hspan⟩ := h.holds
  have hpos : 0 < t.value.toList.length := List.length_pos_iff.mpr (by simpa using hv)
  have := length_le_byteWidth t.value.toList
  rw [hspan, byteWidth_append]
  show byteWidth before < byteWidth before + _
  omega

theorem le_of_tiles (h : Tiles source limit start ts stop) : start ≤ stop := by
  induction ts generalizing start
  case nil => exact Nat.le_of_eq h
  case cons t ts ih =>
    obtain ⟨rfl, hcut, hts⟩ := h
    exact Nat.le_trans (Nat.le_of_lt hcut.width) (ih hts)

-- Each token is cut off somewhere between the two ends.
theorem isCut_of_tiles (h : Tiles source limit start ts stop) (ht : t ∈ ts) :
    t.IsCut source limit ∧ start ≤ t.span.start ∧ t.span.stop ≤ stop := by
  induction ts generalizing start
  case nil => cases ht
  case cons u ts ih =>
    obtain ⟨hstart, hcut, hts⟩ := h
    have hwidth := hcut.width
    rcases List.mem_cons.mp ht with rfl | ht
    · exact ⟨hcut, Nat.le_of_eq hstart.symm, le_of_tiles hts⟩
    · have ⟨hu, hle, hstop⟩ := ih hts ht
      exact ⟨hu, by omega, hstop⟩

theorem pairwise_of_tiles (h : Tiles source limit start ts stop) :
    ts.Pairwise fun t u => t.span.stop ≤ u.span.start := by
  induction ts generalizing start
  case nil => exact .nil
  case cons t ts ih =>
    obtain ⟨_, _, hts⟩ := h
    exact .cons (fun u hu => (isCut_of_tiles hts hu).2.1) (ih hts)

end tiles

variable {source : String} {t : Token}

-- The tokens of a source are those that cover it and one of no width behind them.
theorem ofSource_tiles (source : String) : ∃ ts ending,
    ofSource source true = ts ++ [ending] ∧ ending.kind = .endOfInput ∧
      ending.span = ⟨source.utf8ByteSize, source.utf8ByteSize⟩ ∧
      Tiles source.toList source.utf8ByteSize 0 ts source.utf8ByteSize := by
  refine ⟨_, (endOfInput source.utf8ByteSize).place (.ofSource source), ?_, rfl, rfl,
    placeTokens_tiles (.ofSource source) _ (scan_tiles source)⟩
  simp [ofSource, fillPositions, scan, placeTokens_append, placeTokens]

theorem isCut_of_mem (h : t ∈ ofSource source true) (hk : t.kind ≠ .endOfInput) :
    t.IsCut source.toList source.utf8ByteSize ∧ t.span.stop ≤ source.utf8ByteSize := by
  obtain ⟨ts, ending, hs, hending, _, htiles⟩ := ofSource_tiles source
  rw [hs] at h
  rcases List.mem_append.mp h with h | h
  · have ⟨hcut, _, hstop⟩ := isCut_of_tiles htiles h
    exact ⟨hcut, hstop⟩
  · exact absurd (List.mem_singleton.mp h ▸ hending) hk

theorem IsSolid.isCut (h : t.IsSolid (ofSource source true)) :
    t.IsCut source.toList source.utf8ByteSize ∧ t.span.stop ≤ source.utf8ByteSize := by
  obtain ⟨ts, ending, hs, hending, hspan, htiles⟩ := ofSource_tiles source
  rcases List.mem_append.mp (hs ▸ h.mem) with hmem | hmem
  · have ⟨hcut, _, hstop⟩ := isCut_of_tiles htiles hmem
    exact ⟨hcut, hstop⟩
  · have := h.width
    rw [List.mem_singleton.mp hmem, hspan] at this
    exact absurd this (Nat.lt_irrefl _)

theorem ofSource_pairwise (source : String) :
    (ofSource source true).Pairwise (IsBefore (ofSource source true)) := by
  obtain ⟨ts, ending, hs, hending, hspan, htiles⟩ := ofSource_tiles source
  rw [hs, List.pairwise_append]
  refine ⟨(pairwise_of_tiles htiles).imp_of_mem fun ht _ h => ⟨h, fun _ => ?_⟩,
    List.pairwise_singleton .., ?_⟩
  · exact (isCut_of_tiles htiles ht).left.kind_ne
  · intro t ht u hu
    obtain rfl := List.mem_singleton.mp hu
    have ⟨hcut, _, hstop⟩ := isCut_of_tiles htiles ht
    exact ⟨hspan ▸ hstop, fun _ => hcut.kind_ne⟩

theorem isMarked_of_mem (h : t ∈ ofSource source true) : t.IsMarked := by
  have hmarks {op : Operator} (hk : t.kind = .operator op) : t.marks = .ofOperator op :=
    ((isScanned_of_mem h (by simp [hk])).of_operator hk).2
  have hoperator (hb : t.kind.isBracket) : ∃ op, t.kind = .operator op := by
    revert hb
    cases t.kind <;> first | exact fun _ => ⟨_, rfl⟩ | nofun
  refine ⟨fun hb => ?_, fun hb => ?_⟩
  all_goals
    obtain ⟨op, hk⟩ := hoperator hb
    rw [hmarks hk]
    rw [hk] at hb
    cases op <;> first | rfl | cases hb

end Token

/-! ### Scripts -/

variable {source : String}

namespace Cursor

variable {tokens : List Token} {c : Cursor}

theorem ofTokens_placed (source : String) :
    (ofTokens (Token.ofSource source true)).Placed (Token.ofSource source true) := by
  refine (passOver_placed (by simp) (endingOf_kind _) (fun t ht hs hk => ?_)
    (Token.ofSource_pairwise source) (fun _ _ => Nat.zero_le _) nofun (fun t ht => .inr ht.mem)
    (fun t ht => Token.isMarked_of_mem ht) (List.suffix_refl _)).left
  exact ⟨ht, hs, (Token.isCut_of_mem ht hk).left.width⟩

-- At first all tokens are left, and at the end none is.

theorem left_ofTokens (tokens : List Token) :
    (ofTokens tokens).left = tokens.filter Token.isProper := by
  obtain ⟨ts, hleft, -, hts⟩ := @passOver_block (fun _ => false) [] tokens 0 (endingOf tokens) [] nofun
  obtain rfl : ts = [] := List.eq_nil_iff_forall_not_mem.mpr fun t ht => Bool.noConfusion (hts t ht)
  exact hleft.symm

theorem Placed.left_of_end (h : c.Placed tokens) (hk : c.current.kind = .endOfInput) : c.left = [] := by
  rcases ht : c.left with _ | ⟨t, ts⟩
  case nil => rfl
  case cons =>
    have hmem : t ∈ c.left := ht ▸ .head _
    have hproper := (List.mem_filter.mp hmem).right
    rw [h.current_of_left ht] at hk
    simp [Token.isProper, hk] at hproper

end Cursor

namespace Grammar

variable {tokens : List Token} {g : Grammar} {c : Cursor}

theorem statements_spans (hg : g.IsPlaced tokens) (scope : JumpScope) :
    Spans tokens (g.statements scope) c fun ns c' =>
      Lists tokens c ns c' ∧ c'.current.kind = .endOfInput := by
  refine .loop (I := Lists tokens c) (fun ns c hns => ?_) .nil
  exact .check_ite (fun hk => .pure ⟨hns, hk⟩) fun _ =>
    (hg.statement _ _).bind fun _ _ hn => .pure (hns.append hn.stretch)

-- The induction is on the depth: each rule is made of those that may go less deep.
theorem ofDepth_isPlaced (tokens : List Token) (depth : Nat) : (ofDepth depth).IsPlaced tokens := by
  induction depth
  case zero => exact ⟨fun _ _ => .throw, fun _ _ _ => .throw, fun _ => .throw⟩
  case succ depth ih =>
    exact ⟨fun scope _ => statementRule_spans ih scope,
      fun sequence joinsIn _ => expressionRule_spans ih sequence joinsIn,
      fun _ => primaryRule_spans ih⟩

end Grammar

-- The statements of a script stand one behind the other in its source. All of its tokens are balanced.
theorem row_of_parseStatements {body : List Node} {c : Cursor}
    (h : parseStatements {} (Token.ofSource source true) = .ok (body, c)) :
    Row (Token.ofSource source true) 0 body source.utf8ByteSize ∧
      Balanced ((Token.ofSource source true).filter Token.isProper) := by
  have hspans := Grammar.statements_spans (Grammar.ofDepth_isPlaced (Token.ofSource source true)
    (sufficientDepth (Token.ofSource source true))) {} (ofTokens_placed source)
  rw [StateT.run, show (Grammar.ofDepth _).statements _ _ = _ from h] at hspans
  obtain ⟨hc, hbody, hend⟩ := hspans
  refine ⟨(hbody.row.lower (Nat.zero_le _)).upper ?_, ?_⟩
  · rcases Nat.eq_zero_or_pos c.lastStop with hzero | hpos
    · exact hzero ▸ Nat.zero_le _
    · obtain ⟨t, ht, hstop⟩ := hc.last hpos
      exact hstop ▸ ht.isCut.right
  · obtain ⟨ts, hblock, hts⟩ := hbody.block
    rw [← left_ofTokens, hblock.left, hc.left_of_end hend, List.append_nil]
    exact hts

theorem program_of_parseSource {tree : Node} (h : parseSource source = .ok tree) :
    ∃ body, tree = .mk ⟨0, source.utf8ByteSize⟩ (.program body .module) ∧
      Row (Token.ofSource source true) 0 body source.utf8ByteSize ∧
      Balanced ((Token.ofSource source true).filter Token.isProper) := by
  obtain ⟨ts, ending, hs, _, hspan, _⟩ := Token.ofSource_tiles source
  unfold parseSource parse at h
  split at h
  case h_1 body c hbody =>
    cases h
    refine ⟨body, ?_, row_of_parseStatements hbody⟩
    simp [hs, hspan]
  case h_2 => cases h
  case h_3 => cases h

-- Below the program all nodes are made of tokens.
theorem nests_of_parseSource {tree n : Node} {l : Location} (h : parseSource source = .ok tree)
    (hl : l ≠ .root) (hn : tree.at? l = some n) : n.Nests (Token.ofSource source true) := by
  obtain ⟨body, rfl, hrow, -⟩ := program_of_parseSource h
  cases l with
  | nil => exact absurd rfl hl
  | cons step l =>
    obtain ⟨m, hm, hn⟩ := Option.bind_eq_some_iff.mp hn
    have hbody : m ∈ body := by
      have hmem := Node.mem_nodes_of_child? hm
      simpa [Node.form, Form.slots] using hmem
    exact (hrow.nests_of_mem hbody).at? hn

-- The program spans all of the source. Every other node spans some tokens of it, from the start of one
-- to the end of one. The children of each node stand inside of it, in the order of its fields and not
-- overlapping, and at the place of a name or a literal the source has its text.
theorem parseSource_nests {tree : Node} (h : parseSource source = .ok tree) :
    tree.span = ⟨0, source.utf8ByteSize⟩ ∧
      ∀ l n, tree.at? l = some n →
        (l ≠ .root → n.span.start < n.span.stop ∧
          (∃ t : Token, t.IsSolid (Token.ofSource source true) ∧ t.span.start = n.span.start) ∧
          ∃ t : Token, t.IsSolid (Token.ofSource source true) ∧ t.span.stop = n.span.stop) ∧
        (∀ m ∈ n.form.nodes, n.span.start ≤ m.span.start ∧ m.span.stop ≤ n.span.stop) ∧
        n.form.nodes.Pairwise (fun m k => m.span.stop ≤ k.span.start) ∧
        ∀ text, n.form.text? = some text → n.span.Holds source.toList text.toList := by
  obtain ⟨body, rfl, hrow, -⟩ := program_of_parseSource h
  refine ⟨rfl, fun l n hn => ?_⟩
  by_cases hl : l = .root
  case pos =>
    obtain rfl := hl
    cases hn
    have hnodes : Form.nodes (.program body .module) = body := by simp [Form.slots]
    refine ⟨absurd rfl, fun m hm => hrow.within_of_mem (hnodes ▸ hm), ?_, fun text ht => ?_⟩
    · exact (hnodes.symm ▸ hrow.pairwise : (Form.nodes (.program body .module)).Pairwise _)
    · cases ht
  case neg =>
    have hnests := nests_of_parseSource h hl hn
    refine ⟨fun _ => ⟨hnests.width, hnests.first, hnests.last⟩,
      fun _ hk => hnests.row.within_of_mem hk, hnests.row.pairwise, fun text htext => ?_⟩
    obtain ⟨t, ht, hspan, rfl⟩ := hnests.text htext
    exact hspan ▸ ht.isCut.left.holds

-- The parentheses around the operands belong to neither of them.
theorem parseSource_nests_grouped :
    ∃ tree n m, parseSource "x = (a) * (b)" = .ok tree ∧
      tree.span = ⟨0, 13⟩ ∧
      tree.at? [⟨"body", some 0⟩, ⟨"expression", none⟩, ⟨"right", none⟩] = some n ∧
      n.span.start < n.span.stop ∧
      tree.at? [⟨"body", some 0⟩, ⟨"expression", none⟩, ⟨"right", none⟩, ⟨"left", none⟩] = some m ∧
      m.form.text? = some "a" ∧ m.span.Holds "x = (a) * (b)".toList ['a'] := by
  have hsome : ((parseSource "x = (a) * (b)").toOption.bind fun tree =>
      (tree.at? [⟨"body", some 0⟩, ⟨"expression", none⟩, ⟨"right", none⟩, ⟨"left", none⟩]).bind
        (·.form.text?)) = some "a" := by
    decide +kernel
  have hsome' : ((parseSource "x = (a) * (b)").toOption.bind fun tree =>
      (tree.at? [⟨"body", some 0⟩, ⟨"expression", none⟩, ⟨"right", none⟩])).isSome := by
    decide +kernel
  rcases htree : parseSource "x = (a) * (b)" with _ | tree <;> rw [htree] at hsome hsome'
  case error => cases hsome
  case ok =>
    obtain ⟨m, hm, htext⟩ := Option.bind_eq_some_iff.mp (show (tree.at? _).bind _ = _ from hsome)
    obtain ⟨n, hn⟩ := Option.isSome_iff_exists.mp (show (tree.at? _).isSome from hsome')
    have ⟨hspan, hall⟩ := parseSource_nests htree
    exact ⟨tree, n, m, rfl, hspan, hn, ((hall _ n hn).1 nofun).1, hm, htext,
      (hall _ m hm).2.2.2 _ htext⟩

end ScriptTree
