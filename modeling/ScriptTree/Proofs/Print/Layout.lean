import Mathlib.Data.List.TakeWhile
import ScriptTree.Proofs.Node.Bare
import ScriptTree.Proofs.Print.Kept

/-!
Blanks and line breaks are all that depends on whether the output is spaced.

What a writer does looks at what is written already: at its last character, to keep two words apart, and
at its last mark, to keep a regular expression from being taken for a division. The first depends on the
layout, but it adds nothing except layout. The second does not.
-/

namespace ScriptTree

open Character

-- What spaced output has more of.
def Character.isLayout (c : Char) : Bool :=
  c == ' ' || c == '\n'

-- The text without its layout.
def withoutLayout (text : List Char) : List Char :=
  text.filter (!isLayout ·)

theorem withoutLayout_append (text text' : List Char) :
    withoutLayout (text ++ text') = withoutLayout text ++ withoutLayout text' :=
  List.filter_append ..

theorem withoutLayout_eq_nil {text : List Char} (h : text.all isLayout) : withoutLayout text = [] := by
  simpa [withoutLayout] using h

namespace Writer

variable {w v : Writer} {piece : String}

theorem flush_eq (w : Writer) : ∃ gap : List Char, gap.all isLayout ∧
    w.flush = { w with written := gap ++ w.written, breaks := false } := by
  unfold flush
  split
  case isTrue hb =>
    have hb : w.breaks = false := by simpa using hb
    exact ⟨[], rfl, by rw [← hb]; rfl⟩
  case isFalse =>
    split
    case isTrue => exact ⟨[], rfl, rfl⟩
    case isFalse =>
      refine ⟨List.replicate (w.level * w.options.indentWidth) ' ' ++ ['\n'], ?_, by simp⟩
      simp [isLayout]

-- A piece is written behind some layout.
theorem write_eq (hp : piece ≠ "") (w : Writer) : ∃ gap : List Char, gap.all isLayout ∧
    w.write piece =
      { w with written := piece.toList.reverse ++ (gap ++ w.written), breaks := false } := by
  obtain ⟨gap, hgap, hflush⟩ := w.flush_eq
  unfold write
  split
  case h_1 hnil => exact absurd (String.toList_eq_nil_iff.mp hnil) hp
  case h_2 first rest hfirst =>
    rw [hfirst, hflush]
    dsimp only
    split
    case isTrue => exact ⟨' ' :: gap, by simp [isLayout, hgap], by simp⟩
    case isFalse => exact ⟨gap, hgap, by simp⟩

theorem space_eq (w : Writer) : w.space = w ∨ w.space = { w with written := ' ' :: w.written } := by
  unfold space
  split
  case isTrue => exact .inl rfl
  case isFalse => exact .inr rfl

-- The same but for the layout.
structure IsAlike (w v : Writer) : Prop where
  text        : withoutLayout w.written = withoutLayout v.written
  lastMark?   : w.lastMark? = v.lastMark?
  encloses    : w.options.encloses = v.options.encloses
  memberStyle : w.options.memberStyle = v.options.memberStyle

-- The last mark of a piece is that of the text that ends with it.
theorem head?_dropWhile_append (hp : IsVisible piece) (hne : piece ≠ "") (rest : List Char) :
    ((piece.toList.reverse ++ rest).dropWhile (· == ' ')).head? =
      (piece.toList.reverse.dropWhile (· == ' ')).head? := by
  have hmark : piece.toList.reverse.dropWhile (· == ' ') ≠ [] := fun h => by
    have hspaces := List.dropWhile_eq_nil_iff.mp h
    exact hne (hp (List.all_eq_true.mpr fun c hc => hspaces c (List.mem_reverse.mpr hc)))
  rw [List.dropWhile_append, if_neg (by simpa using hmark), List.head?_append_of_ne_nil _ hmark]

namespace IsAlike

theorem write (hp : IsVisible piece) (h : IsAlike w v) : IsAlike (w.write piece) (v.write piece) := by
  by_cases hne : piece = ""
  case pos => simpa [hne, Writer.write] using h
  case neg =>
    obtain ⟨gap, hgap, hw⟩ := w.write_eq hne
    obtain ⟨gap', hgap', hv⟩ := v.write_eq hne
    rw [hw, hv]
    refine ⟨?_, ?_, h.encloses, h.memberStyle⟩
    · simp only [withoutLayout_append, withoutLayout_eq_nil hgap, withoutLayout_eq_nil hgap', h.text]
    · simp only [Writer.lastMark?, head?_dropWhile_append hp hne]

theorem space_left (h : IsAlike w v) : IsAlike w.space v := by
  rcases w.space_eq with hw | hw <;> rw [hw]
  · exact h
  · exact ⟨h.text, h.lastMark?, h.encloses, h.memberStyle⟩

theorem symm (h : IsAlike w v) : IsAlike v w :=
  ⟨h.text.symm, h.lastMark?.symm, h.encloses.symm, h.memberStyle.symm⟩

theorem optionalSpace_left (h : IsAlike w v) : IsAlike w.optionalSpace v := by
  unfold Writer.optionalSpace
  split
  case isTrue => exact h.space_left
  case isFalse => exact h

theorem newline_left (h : IsAlike w v) : IsAlike w.newline v := by
  unfold Writer.newline
  split
  case isTrue => exact ⟨h.text, h.lastMark?, h.encloses, h.memberStyle⟩
  case isFalse => exact h

-- Layout may be written by one of the two alone, and only pieces have to be written by both.
theorem isKept : IsKept IsVisible True IsAlike where
  visible hp := hp
  write := write
  space h := h.space_left.symm.space_left.symm
  optionalSpace h := h.optionalSpace_left.symm.optionalSpace_left.symm
  newline h := h.newline_left.symm.newline_left.symm
  indent h := ⟨h.text, h.lastMark?, h.encloses, h.memberStyle⟩
  dedent h := ⟨h.text, h.lastMark?, h.encloses, h.memberStyle⟩
  lastMark? h := h.lastMark?
  encloses h := h.encloses
  memberStyle _ h := h.memberStyle

end IsAlike
end Writer

open Writer

-- What is printed depends on the layout only in its layout, whatever the tree is, as long as no text in it
-- is made of spaces alone.
theorem print_layout {style style' : PrintOptions} {tree : Node}
    (hm : style.memberStyle = style'.memberStyle) (he : style.encloses = style'.encloses)
    (h : ∀ l form text, tree.formAt? l = some form → form.ownText? = some text → IsVisible text) :
    withoutLayout (tree.print style).toList = withoutLayout (tree.print style').toList := by
  have hstart : IsAlike { options := style } { options := style' } := ⟨rfl, rfl, he, hm⟩
  have hend := (Node.emit_keeps IsAlike.isKept h (fun _ _ _ _ => trivial) {} hstart).text
  simp only [withoutLayout, Node.print, Writer.text, String.toList_ofList, List.filter_reverse] at *
  rw [hend]

-- Braces, parentheses and a regular expression behind a word.
theorem print_layout_guarded :
    let literal : Node := .mk Node.nowhere (.literal .regex "/x/")
    let inner : Node := .mk Node.nowhere (.ifStatement (.mk Node.nowhere (.identifier "b"))
      (.mk Node.nowhere (.throwStatement literal)) none)
    let tree : Node := .mk Node.nowhere (.ifStatement (.mk Node.nowhere (.identifier "a")) inner
      (some (.mk Node.nowhere .emptyStatement)))
    tree.print {} = "if(a)\x7bif(b)throw(/x/);\x7delse;" ∧
      withoutLayout (tree.print { isSpaced := true }).toList = withoutLayout (tree.print {}).toList := by
  intro literal inner tree
  refine ⟨by decide +kernel, print_layout rfl rfl fun l form text hl ht => ?_⟩
  let holds (form : Form Node) : Bool := form.ownText?.all fun text => decide (IsVisible text)
  have h : tree.fold (fun m results => holds m.form && results.children.all Prod.snd) = true := by
    decide +kernel
  simpa [holds, ht] using Node.holds_of_fold holds h hl

end ScriptTree
