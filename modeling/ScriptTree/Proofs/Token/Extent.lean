import ScriptTree.Token.Scanner

/-!
Every piece that the scanner cuts off is a beginning of the text in front of it, and is not empty.
-/

namespace ScriptTree

open Character

namespace Lexeme

theorem lineComment_isPrefix (text : List Char) : lineComment text <+: text :=
  List.takeWhile_prefix _

theorem blockComment_isPrefix (text : List Char) : blockComment text <+: text := by
  fun_induction blockComment text
  case case1 => exact List.prefix_rfl
  case case2 text => exact ⟨text, rfl⟩
  case case3 ih => exact List.cons_prefix_cons.mpr ⟨rfl, ih⟩

theorem quoted_isPrefix (quote : Char) (behind text : List Char) :
    quoted quote behind text <+: text := by
  fun_induction quoted quote behind text
  case case1 => exact List.prefix_rfl
  case case2 => exact List.nil_prefix
  case case3 text _ _ => exact ⟨text, rfl⟩
  case case4 ih => exact List.cons_prefix_cons.mpr ⟨rfl, ih⟩

theorem regex?_isPrefix {behind text found : List Char} (h : regex? behind text = some found) :
    found <+: text := by
  induction text generalizing behind found <;> simp only [regex?, reduceCtorEq] at h
  case cons c text ih =>
    split at h
    case isTrue => contradiction
    case isFalse =>
      split at h
      case isTrue => cases h; exact List.cons_prefix_cons.mpr ⟨rfl, List.takeWhile_prefix _⟩
      case isFalse =>
        have ⟨rest, h, hr⟩ := Option.map_eq_some_iff.mp h
        exact hr ▸ List.cons_prefix_cons.mpr ⟨rfl, ih h⟩

theorem number_isPrefix (text : List Char) : number text <+: text := by
  fun_cases number text
  case case1 => simp [ List.takeWhile_prefix]
  case case2 => simp [ List.takeWhile_prefix]
  case case3 fraction _ _ h =>
    have h' : text = text.takeWhile Char.isDigit ++ '.' :: fraction := by
      rw [← h, List.takeWhile_append_dropWhile]
    conv => rhs; rw [h']
    simp [ List.takeWhile_prefix]
  case case4 => exact List.takeWhile_prefix _

theorem number_ne_nil {c : Char} {text : List Char} (h : c.isDigit) : number (c :: text) ≠ [] := by
  generalize hn : c :: text = text'
  fun_cases number text' <;> simp
  case case4 => simp [← hn, h]

end Lexeme

namespace Operator

theorem ofSpelling?_spelling {s : String} {op : Operator} (h : ofSpelling? s = some op) :
    op.spelling = s := by
  simpa using List.find?_some h

theorem ofSpelling?_of_spelling (op : Operator) : ofSpelling? op.spelling = some op := by
  cases op <;> rfl

theorem longestAt?_isPrefix {text : List Char} {op : Operator} (h : longestAt? text = some op) :
    op.spelling.toList <+: text := by
  have ⟨n, _, h⟩ := List.exists_of_findSome?_eq_some h
  have h := congrArg String.toList <| ofSpelling?_spelling h
  rw [String.toList_ofList] at h
  exact h ▸ List.take_prefix ..

theorem spelling_ne_nil (op : Operator) : op.spelling.toList ≠ [] := by
  cases op <;> decide

end Operator

namespace Scanner

variable (nested : Scanner → List Token)

@[simp]
theorem word_text (text : List Char) : (word text).text = text := by
  fun_cases word text <;> rfl

@[simp]
theorem word_embeddings (text : List Char) : (word text).embeddings = [] := by
  fun_cases word text <;> rfl

@[simp]
theorem word_template (text : List Char) : (word text).marks.template = false := by
  fun_cases word text <;> rfl

theorem word_kind_ne_endOfInput (text : List Char) : (word text).kind ≠ .endOfInput := by
  fun_cases word text <;> simp

theorem template_isPrefix (keepTrivia inside : Bool) (behind : List Char) (offset : Nat)
    (text : List Char) : (template nested keepTrivia inside behind offset text).1 <+: text := by
  fun_induction template nested keepTrivia inside behind offset text <;>
    simp_all [List.cons_prefix_cons]

-- What every piece is, wherever it is cut off.
structure Piece.Fits (p : Piece) (text : List Char) : Prop where
  begins : p.text <+: text
  ne_nil : p.text ≠ []
  kind   : p.kind ≠ .endOfInput

theorem operatorOrWord_fits (c : Char) (rest : List Char) :
    (operatorOrWord c rest).Fits (c :: rest) := by
  fun_cases operatorOrWord c rest
  case case1 op h =>
    split at h
    case isTrue => exact ⟨Operator.longestAt?_isPrefix h, op.spelling_ne_nil, nofun⟩
    case isFalse => contradiction
  case case2 _ h => exact ⟨Lexeme.number_isPrefix _, Lexeme.number_ne_nil h, nofun⟩
  case case3 => exact ⟨by simp [ List.takeWhile_prefix], by simp, word_kind_ne_endOfInput _⟩

@[simp]
theorem operatorOrWord_template (c : Char) (rest : List Char) :
    (operatorOrWord c rest).marks.template = false := by
  fun_cases operatorOrWord c rest
  case case1 => rfl
  case case2 => rfl
  case case3 => exact word_template _

@[simp]
theorem operatorOrWord_embeddings (c : Char) (rest : List Char) :
    (operatorOrWord c rest).embeddings = [] := by
  fun_cases operatorOrWord c rest <;> simp

theorem piece_fits (s : Scanner) (c : Char) (rest : List Char) :
    (piece nested s c rest).Fits (c :: rest) := by
  fun_cases piece nested s c rest <;>
    (try refine ⟨List.cons_prefix_cons.mpr ⟨rfl, ?_⟩, nofun, nofun⟩)
  case case1 h =>
    have ⟨_, h⟩ := List.head?_eq_some_iff.mp <| beq_iff_eq.mp (Bool.and_eq_true_iff.mp h).right
    simp [h, List.cons_prefix_cons, Lexeme.lineComment_isPrefix]
  case case2 h =>
    have ⟨_, h⟩ := List.head?_eq_some_iff.mp <| beq_iff_eq.mp (Bool.and_eq_true_iff.mp h).right
    simp [h, List.cons_prefix_cons, Lexeme.blockComment_isPrefix]
  case case3 => exact List.takeWhile_prefix _
  case case4 => exact List.takeWhile_prefix _
  case case5 h =>
    have hp := template_isPrefix nested s.keepTrivia false (c :: s.behind) (s.offset + 1) rest
    rwa [h] at hp
  case case6 => exact Lexeme.quoted_isPrefix ..
  case case7 h =>
    split at h
    case isTrue => exact Lexeme.regex?_isPrefix h
    case isFalse => contradiction
  case case8 => exact operatorOrWord_fits ..

-- Only templates hold embedded expressions.
theorem piece_embeddings (s : Scanner) (c : Char) (rest : List Char) :
    (piece nested s c rest).marks.template = false ∧ (piece nested s c rest).embeddings = [] ∨
      c = '\x60' ∧ (piece nested s c rest).marks.template ∧ ∃ text embeddings,
        template nested s.keepTrivia false (c :: s.behind) (s.offset + 1) rest = (text, embeddings) ∧
        (piece nested s c rest).text = c :: text ∧
        (piece nested s c rest).embeddings = embeddings := by
  fun_cases piece nested s c rest <;> simp_all

end Scanner
end ScriptTree
