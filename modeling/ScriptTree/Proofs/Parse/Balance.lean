import ScriptTree.Proofs.Parse.Nesting

/-!
The brackets among the tokens of a node. Grouping parentheses leave no node, and the span of what is
built of a grouped operand starts, or ends, inside of them. No other bracket is without its counterpart.
-/

namespace ScriptTree

-- Does the other span lie inside of this one?
def Span.encloses (s t : Span) : Bool :=
  s.start ≤ t.start && t.stop ≤ s.stop

section row

variable {ts opening inner closing : List Token} {span : Span} {t u : Token}

theorem start_le_of_head? (ho : ts.Pairwise fun t u => t.span.stop ≤ u.span.start)
    (hw : ∀ t ∈ ts, t.span.start < t.span.stop) (ht : ts.head? = some t) (hu : u ∈ ts) :
    t.span.start ≤ u.span.start := by
  obtain ⟨us, rfl⟩ := List.head?_eq_some_iff.mp ht
  rcases List.mem_cons.mp hu with rfl | hu
  · exact Nat.le_refl _
  · exact Nat.le_trans (Nat.le_of_lt (hw t (.head _))) ((List.pairwise_cons.mp ho).left u hu)

theorem stop_le_of_getLast? (ho : ts.Pairwise fun t u => t.span.stop ≤ u.span.start)
    (hw : ∀ t ∈ ts, t.span.start < t.span.stop) (ht : ts.getLast? = some t) (hu : u ∈ ts) :
    u.span.stop ≤ t.span.stop := by
  obtain ⟨us, rfl⟩ := List.getLast?_eq_some_iff.mp ht
  have hmem := List.mem_append_right us (List.mem_singleton_self t)
  rcases List.mem_append.mp hu with hu | hu
  · exact Nat.le_trans ((List.pairwise_append.mp ho).2.2 u hu t (List.mem_singleton_self t))
      (Nat.le_of_lt (hw t hmem))
  · rw [List.mem_singleton.mp hu]

-- Of tokens in a row, those of the block are all that the span encloses.
theorem Span.Framed.filter_encloses (h : span.Framed opening inner closing)
    (hi : opening ++ inner ++ closing <:+: ts) (ho : ts.Pairwise fun t u => t.span.stop ≤ u.span.start)
    (hw : ∀ t ∈ ts, t.span.start < t.span.stop) : ts.filter (span.encloses ·.span) = inner := by
  obtain ⟨before, behind, rfl⟩ := hi
  obtain ⟨first, hfirst, hstart⟩ := Option.map_eq_some_iff.mp h.first
  obtain ⟨last, hlast, hstop⟩ := Option.map_eq_some_iff.mp h.last
  have hts : before ++ (opening ++ inner ++ closing) ++ behind =
      (before ++ opening) ++ inner ++ (closing ++ behind) := by simp
  rw [hts] at ho hw ⊢
  obtain ⟨ho, -, hbehind⟩ := List.pairwise_append.mp ho
  obtain ⟨-, ho, hbefore⟩ := List.pairwise_append.mp ho
  have hinner {t : Token} (ht : t ∈ inner) : t ∈ before ++ opening ++ inner :=
    List.mem_append_right _ ht
  have hwidth (t : Token) (ht : t ∈ inner) : t.span.start < t.span.stop :=
    hw t (List.mem_append_left _ (hinner ht))
  have hfront : (before ++ opening).filter (span.encloses ·.span) = [] := by
    refine List.filter_eq_nil_iff.mpr fun t ht => ?_
    have := hbefore t ht first (List.mem_of_mem_head? hfirst)
    have := hw t (List.mem_append_left _ (List.mem_append_left _ ht))
    simp only [Span.encloses, Bool.and_eq_true, decide_eq_true_eq]
    omega
  have hback : (closing ++ behind).filter (span.encloses ·.span) = [] := by
    refine List.filter_eq_nil_iff.mpr fun t ht => ?_
    have := hbehind last (hinner (List.mem_of_mem_getLast? hlast)) t ht
    have := hw t (List.mem_append_right _ ht)
    simp only [Span.encloses, Bool.and_eq_true, decide_eq_true_eq]
    omega
  have hall : inner.filter (span.encloses ·.span) = inner := by
    refine List.filter_eq_self.mpr fun t ht => ?_
    have := start_le_of_head? ho hwidth hfirst ht
    have := stop_le_of_getLast? ho hwidth hlast ht
    simp only [Span.encloses, Bool.and_eq_true, decide_eq_true_eq]
    omega
  rw [List.filter_append, List.filter_append, hfront, hall, hback, List.nil_append, List.append_nil]

end row

-- The tokens of a source, without trivia and the end of input.
def Token.properOf (source : String) : List Token :=
  (ofSource source true).filter isProper

namespace Token

variable {source : String} {t : Token}

theorem properOf_pairwise (source : String) :
    (properOf source).Pairwise fun t u => t.span.stop ≤ u.span.start :=
  ((ofSource_pairwise source).filter _).imp fun h => h.span

theorem isCut_of_mem_properOf (h : t ∈ properOf source) :
    t.IsCut source.toList source.utf8ByteSize ∧ t.span.stop ≤ source.utf8ByteSize := by
  obtain ⟨hmem, hproper⟩ := List.mem_filter.mp h
  exact isCut_of_mem hmem (by rintro hk; simp [isProper, hk] at hproper)

end Token

variable {source : String}

-- The tokens inside of the span of a node are balanced, together with parentheses that stand directly in
-- front of them and behind. There are such in front only if the node starts with an operand, and behind
-- only if it ends with one.
theorem parseSource_balances {tree n : Node} {l : Location} (h : parseSource source = .ok tree)
    (hn : tree.at? l = some n) :
    ∃ opening inner closing,
      opening ++ inner ++ closing <:+: Token.properOf source ∧
      (Token.properOf source).filter (n.span.encloses ·.span) = inner ∧
      Balanced (opening ++ inner ++ closing) ∧
      (∀ t ∈ opening, t.kind = .operator .leftParen) ∧
      (∀ t ∈ closing, t.kind = .operator .rightParen) ∧
      (opening ≠ [] → n.form.startsWithOperand) ∧ (closing ≠ [] → n.form.endsWithOperand) := by
  by_cases hl : l = .root
  case pos =>
    obtain ⟨body, rfl, -, hbalanced⟩ := program_of_parseSource h
    obtain rfl := hl
    cases hn
    refine ⟨[], Token.properOf source, [], ?_, ?_, ?_, nofun, nofun, absurd rfl, absurd rfl⟩
    · simp
    · refine List.filter_eq_self.mpr fun t ht => ?_
      simp [Span.encloses, Node.span, (Token.isCut_of_mem_properOf ht).right]
    · rwa [List.append_nil]
  case neg =>
    obtain ⟨opening, inner, closing, hf, hi, hstarts, hends⟩ := (nests_of_parseSource h hl hn).isFramed
    have hinner := hf.filter_encloses hi (Token.properOf_pairwise source)
      fun t ht => (Token.isCut_of_mem_properOf ht).left.width
    exact ⟨opening, inner, closing, hi, hinner, hf.balanced, hf.opening, hf.closing, hstarts, hends⟩

-- In front of the operand stands a parenthesis, which belongs to the balance of the property access.
theorem parseSource_balances_grouped :
    ∃ tree n opening inner closing, parseSource "(a).b" = .ok tree ∧
      tree.at? [⟨"body", some 0⟩, ⟨"expression", none⟩] = some n ∧
      opening ++ inner ++ closing <:+: Token.properOf "(a).b" ∧
      (Token.properOf "(a).b").filter (n.span.encloses ·.span) = inner ∧
      Balanced (opening ++ inner ++ closing) := by
  have hsome : ((parseSource "(a).b").toOption.bind fun tree =>
      tree.at? [⟨"body", some 0⟩, ⟨"expression", none⟩]).isSome := by
    decide +kernel
  obtain ⟨n, hn⟩ := Option.isSome_iff_exists.mp hsome
  obtain ⟨tree, htree, hn⟩ := Option.bind_eq_some_iff.mp hn
  rcases hparse : parseSource "(a).b" with _ | tree' <;> rw [hparse] at htree <;> cases htree
  obtain ⟨opening, inner, closing, hi, hinner, hbalanced, -⟩ := parseSource_balances hparse hn
  exact ⟨tree, n, opening, inner, closing, rfl, hn, hi, hinner, hbalanced⟩

-- Without that parenthesis they are not balanced.
theorem parseSource_unbalanced :
    ∃ tree n, parseSource "(a).b" = .ok tree ∧
      tree.at? [⟨"body", some 0⟩, ⟨"expression", none⟩] = some n ∧ n.span = ⟨1, 5⟩ ∧
      ¬Balanced ((Token.properOf "(a).b").filter (n.span.encloses ·.span)) := by
  have hspan : ((parseSource "(a).b").toOption.bind fun tree =>
      (tree.at? [⟨"body", some 0⟩, ⟨"expression", none⟩]).map (·.span)) = some ⟨1, 5⟩ := by
    decide +kernel
  have hunbalanced : ¬Balanced ((Token.properOf "(a).b").filter (Span.encloses ⟨1, 5⟩ ·.span)) := by
    decide +kernel
  obtain ⟨tree, htree, h⟩ := Option.bind_eq_some_iff.mp hspan
  obtain ⟨n, hn, hspan⟩ := Option.map_eq_some_iff.mp h
  rcases hparse : parseSource "(a).b" with _ | tree' <;> rw [hparse] at htree <;> cases htree
  exact ⟨tree, n, rfl, hn, hspan, hspan ▸ hunbalanced⟩

end ScriptTree
