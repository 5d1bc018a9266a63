import ScriptTree.Proofs.Parse.Follows.Statement
import ScriptTree.Proofs.Parse.Soundness

/-!
A script says the same with the semicolons written that it implies.
-/

namespace ScriptTree

open Node Rule Cursor

theorem within_followedBy {depth depth' : Nat} (h : depth ≤ depth') :
    (∀ scope c, Follows .eats Clear bare (statementWithin depth scope) (statementWithin depth' scope) c) ∧
      (∀ sequence joinsIn c, Follows .eats Loose bare (expressionWithin depth sequence joinsIn)
        (expressionWithin depth' sequence joinsIn) c) ∧
      ∀ c, Follows .eats Loose bare (primaryWithin depth) (primaryWithin depth') c := by
  induction depth generalizing depth'
  case zero =>
    refine ⟨fun _ _ => .fails fun _ h => ?_, fun _ _ _ => .fails fun _ h => ?_,
      fun _ => .fails fun _ h => ?_⟩ <;> cases h
  case succ depth ih =>
    obtain ⟨depth', rfl⟩ := Nat.exists_eq_succ_of_ne_zero (Nat.ne_zero_of_lt h)
    have h := Nat.le_of_succ_le_succ h
    have hg : (Grammar.ofDepth depth).FollowedBy (Grammar.ofDepth depth') :=
      ⟨h, (ih h).1, (ih h).2.1, (ih h).2.2⟩
    exact ⟨fun scope _ => Grammar.statementRule_follows hg scope,
      fun sequence joinsIn _ => Grammar.expressionRule_follows hg sequence joinsIn,
      fun _ => Grammar.primaryRule_follows hg⟩

theorem Grammar.ofDepth_followedBy {depth depth' : Nat} (h : depth ≤ depth') :
    (ofDepth depth).FollowedBy (ofDepth depth') :=
  have ⟨hs, he, hp⟩ := within_followedBy h
  ⟨h, hs, he, hp⟩

-- A semicolon right behind a token.
def Token.semicolonBehind (t : Token) : Token where
  kind := .operator .semicolon
  span := ⟨t.span.stop, t.span.stop + 1⟩
  value := ";"
  marks := .ofOperator .semicolon

theorem Token.semicolonBehind_isSemicolon (t : Token) : t.semicolonBehind.IsSemicolon :=
  ⟨rfl, rfl⟩

-- The places where the statements of a script end without a semicolon.
def impliedSemicolons (options : ParseOptions) (tokens : List Token) : List Nat :=
  match parseStatements options tokens with
  | .ok (_, c) => c.implied
  | .error _ => []

theorem Cursor.ofTokens_rests (tokens : List Token) : (ofTokens tokens).Rests :=
  passOver_rests (endingOf_kind tokens) nofun

theorem impliedSemicolons_eq {options : ParseOptions} {tokens : List Token} {body : List Node}
    {c : Cursor} (h : parseStatements options tokens = .ok (body, c)) :
    impliedSemicolons options tokens = c.implied := by
  rw [impliedSemicolons, h]

theorem endingOf_of_getLast? {tokens : List Token} {t : Token} (ht : tokens.getLast? = some t)
    (hk : t.kind = .endOfInput) : endingOf tokens = t := by
  simp [endingOf, ht, hk]

theorem parse_of_parseStatements {options : ParseOptions} {tokens : List Token} {body : List Node}
    {c : Cursor} (h : parseStatements options tokens = .ok (body, c)) :
    parse options tokens = .ok (.mk ⟨0, (tokens.getLast?.map (·.span.stop)).getD 0⟩
      (.program body options.sourceType)) := by
  rw [parse, h]

section

variable {options : ParseOptions} {tokens : List Token} {t : Token} {semicolon : Token → Token}

-- The statements that are read where the implied semicolons are written.
theorem parseStatements_withSemicolons {body : List Node} {c : Cursor}
    (ht : tokens.getLast? = some t) (hk : t.kind = .endOfInput)
    (hs : ∀ t, (semicolon t).IsSemicolon)
    (h : parseStatements options tokens = .ok (body, c)) :
    ∃ body' c', parseStatements options (Token.withSemicolons semicolon c.implied 0 tokens) =
      .ok (body', c') ∧ body'.map bare = body.map bare := by
  let tokens' := Token.withSemicolons semicolon c.implied 0 tokens
  have hlength : tokens.length ≤ tokens'.length := Token.length_le_withSemicolons
  have hdepth : sufficientDepth tokens ≤ sufficientDepth tokens' := by
    simp only [sufficientDepth]
    omega
  have hg := Grammar.ofDepth_followedBy hdepth
  have hrun := Grammar.statements_follows hg { allowsReturn := options.allowsReturn }
    (Cursor.ofTokens_rests tokens) h
  have hset : c.Settled c.implied := fun _ hp _ => hp
  have hclear := hrun.moves.isClear trivial hset fun _ hp => hp
  have hending : endingOf tokens' = endingOf tokens := by
    rw [endingOf_of_getLast? ht hk, endingOf_of_getLast? (Token.withSemicolons_getLast? ht hk) hk]
  have htracks : Tracks semicolon c.implied (ofTokens tokens) (ofTokens tokens') :=
    ⟨fun _ => Level.skipTrivia ⟨hending, rfl, rfl, List.Subset.refl _⟩, absurd hclear⟩
  obtain ⟨body', c', hrun', hbare, _⟩ := hrun.mirror hs hset (fun _ hp => hp) htracks
  exact ⟨body', c', hrun', hbare⟩

-- A stream of tokens that parses is parsed to the same tree, up to spans, where all semicolons are
-- written that it implies.
theorem parse_withSemicolons {tree : Node} (ht : tokens.getLast? = some t)
    (hk : t.kind = .endOfInput) (hs : ∀ t, (semicolon t).IsSemicolon)
    (h : parse options tokens = .ok tree) :
    ∃ tree', parse options
      (Token.withSemicolons semicolon (impliedSemicolons options tokens) 0 tokens) = .ok tree' ∧
        tree'.bare = tree.bare := by
  unfold parse at h
  split at h
  case h_1 body c hbody =>
    cases h
    have ⟨body', c', hbody', hbare⟩ := parseStatements_withSemicolons ht hk hs hbody
    rw [impliedSemicolons_eq hbody]
    refine ⟨_, parse_of_parseStatements hbody', ?_⟩
    rw [bare_mk, bare_mk, Form.map, Form.map, hbare]
  case h_2 => cases h
  case h_3 => cases h

-- Lines that end statements in a function and behind it.
theorem parse_withSemicolons_lines :
    let tokens := Token.ofSource "a = function () \x7b return\n1 \x7d\n++b" true
    impliedSemicolons {} tokens = [11, 9, 8, 7] ∧
      ∃ tree tree', parse {} tokens = .ok tree ∧
        parse {} (Token.withSemicolons Token.semicolonBehind [11, 9, 8, 7] 0 tokens) = .ok tree' ∧
          tree'.bare = tree.bare := by
  intro tokens
  have himplied : impliedSemicolons {} tokens = [11, 9, 8, 7] := by decide +kernel
  have hsome : (parse {} tokens).toOption.isSome := by decide +kernel
  have hlast : tokens.getLast?.map (·.kind) = some .endOfInput := by decide +kernel
  have ⟨t, ht, hk⟩ := Option.map_eq_some_iff.mp hlast
  cases hp : parse {} tokens
  case error => simp [hp, Except.toOption] at hsome
  case ok tree =>
    have ⟨tree', htree', hbare⟩ :=
      parse_withSemicolons ht hk Token.semicolonBehind_isSemicolon hp
    exact ⟨himplied, tree, tree', rfl, himplied ▸ htree', hbare⟩

end

end ScriptTree
