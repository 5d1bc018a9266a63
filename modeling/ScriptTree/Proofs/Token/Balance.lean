import ScriptTree.Token

/-!
Brackets among tokens. The three kinds of them nest: each is closed by its counterpart, the one that was
opened last before the others.
-/

namespace ScriptTree

namespace TokenKind

-- What closes the bracket that this kind of token opens.
def closing? : TokenKind → Option TokenKind
  | operator .leftParen   => some (operator .rightParen)
  | operator .leftBracket => some (operator .rightBracket)
  | operator .leftBrace   => some (operator .rightBrace)
  | _                     => none

def isClosing : TokenKind → Bool
  | operator .rightParen | operator .rightBracket | operator .rightBrace => true
  | _ => false

def isBracket (k : TokenKind) : Bool :=
  k.closing?.isSome || k.isClosing

-- What the open brackets wait for behind a token of this kind, the last one first. Only the bracket that
-- was opened last can be closed.
def await? (k : TokenKind) (waiting : List TokenKind) : Option (List TokenKind) :=
  match k.closing? with
  | some closing => some (closing :: waiting)
  | none =>
    if k.isClosing then
      match waiting with
      | []           => none
      | k' :: waiting => if k' = k then some waiting else none
    else some waiting

variable {k : TokenKind} {w w' : List TokenKind}

theorem await?_of_not_isBracket (h : k.isBracket = false) : k.await? w = some w := by
  obtain ⟨hopens, hcloses⟩ := Bool.or_eq_false_iff.mp h
  have hopens : k.closing? = none := by simpa using hopens
  simp [await?, hopens, hcloses]

-- Brackets further out are left alone.
theorem await?_append (h : k.await? w = some w') (u : List TokenKind) :
    k.await? (w ++ u) = some (w' ++ u) := by
  unfold await? at h ⊢
  split at h
  case h_1 =>
    cases h
    rfl
  case h_2 =>
    split at h
    case isFalse hk =>
      cases h
      exact if_neg hk
    case isTrue hclosing =>
      rw [if_pos hclosing]
      cases w
      case nil => cases h
      case cons k' w =>
        dsimp only at h
        split at h
        case isFalse => cases h
        case isTrue hk =>
          cases h
          exact if_pos hk

end TokenKind

-- What the brackets wait for that are open behind the tokens.
def nesting? (waiting : List TokenKind) : List Token → Option (List TokenKind)
  | []      => some waiting
  | t :: ts => (t.kind.await? waiting).bind (nesting? · ts)

def Balanced (ts : List Token) : Prop :=
  nesting? [] ts = some []

instance (ts : List Token) : Decidable (Balanced ts) :=
  inferInstanceAs (Decidable (_ = _))

variable {ts us : List Token} {w w' w'' : List TokenKind}

theorem nesting?_cons {t : Token} (h : t.kind.await? w = some w') :
    nesting? w (t :: ts) = nesting? w' ts := by
  rw [nesting?, h]
  rfl

theorem nesting?_append (h : nesting? w ts = some w') : nesting? w (ts ++ us) = nesting? w' us := by
  induction ts generalizing w
  case nil =>
    cases h
    rfl
  case cons t ts ih =>
    obtain ⟨v, hv, h⟩ := Option.bind_eq_some_iff.mp h
    rw [List.cons_append, nesting?_cons hv, ih h]

theorem balanced_of_not_isBracket (h : ∀ t ∈ ts, t.kind.isBracket = false) : Balanced ts := by
  induction ts
  case nil => rfl
  case cons t ts ih =>
    have ⟨ht, hts⟩ := List.forall_mem_cons.mp h
    exact (nesting?_cons (TokenKind.await?_of_not_isBracket ht)).trans (ih hts)

theorem nesting?_under (h : nesting? w ts = some w') (u : List TokenKind) :
    nesting? (w ++ u) ts = some (w' ++ u) := by
  induction ts generalizing w
  case nil =>
    cases h
    rfl
  case cons t ts ih =>
    obtain ⟨v, hv, h⟩ := Option.bind_eq_some_iff.mp h
    rw [nesting?_cons (TokenKind.await?_append hv u), ih h]

end ScriptTree
