import ScriptTree.Json

/-!
Different values have different texts.

The first character of a text says of which kind the value is, and for most kinds the text says where it
ends. Only the end of a number is where no digit follows, so nothing that begins with a digit may stand
behind a value. Nothing does: there stands a comma, a line break or nothing at all.
-/

namespace ScriptTree.Json

-- The first character of a text in quotes, from its escape, and what comes after it. At the quote that
-- ends the text there is none.
def firstEscaped? : List Char → Option (Char × List Char)
  | '\\' :: '"' :: text => some ('"', text)
  | '\\' :: '\\' :: text => some ('\\', text)
  | '\\' :: 'b' :: text => some ('\x08', text)
  | '\\' :: 'f' :: text => some ('\x0c', text)
  | '\\' :: 'n' :: text => some ('\n', text)
  | '\\' :: 'r' :: text => some ('\r', text)
  | '\\' :: 't' :: text => some ('\t', text)
  | '\\' :: 'u' :: '0' :: '0' :: high :: low :: text =>
    ((List.range 0x20).find? (hexadecimalByte · == [high, low])).map fun n => (Char.ofNat n, text)
  | '"' :: _ => none
  | c :: text => some (c, text)
  | [] => none

theorem find?_hexadecimalByte : ∀ n < 0x20,
    (List.range 0x20).find? (hexadecimalByte · == hexadecimalByte n) = some n := by
  decide

theorem firstEscaped?_escape (c : Char) (text : List Char) :
    firstEscaped? (escape c ++ text) = some (c, text) := by
  fun_cases escape c
  case case8 h =>
    change Option.map (fun n => (Char.ofNat n, text))
      ((List.range 0x20).find? (hexadecimalByte · == hexadecimalByte c.toNat)) = _
    rw [find?_hexadecimalByte _ h, Option.map_some, Char.ofNat_toNat]
  case case9 =>
    rw [List.singleton_append, firstEscaped?] <;> simp_all
  all_goals rfl

theorem flatMap_escape_cancel {cs ds rest rest' : List Char}
    (h : cs.flatMap escape ++ '"' :: rest = ds.flatMap escape ++ '"' :: rest') :
    cs = ds ∧ rest = rest' := by
  have hfirst := congrArg firstEscaped? h
  induction cs generalizing ds
  case nil =>
    cases ds
    case nil => simpa using h
    case cons =>
      rw [List.flatMap_cons, List.append_assoc, firstEscaped?_escape] at hfirst
      cases hfirst
  case cons c cs ih =>
    rw [List.flatMap_cons, List.append_assoc, firstEscaped?_escape] at hfirst
    cases ds
    case nil => cases hfirst
    case cons d ds =>
      rw [List.flatMap_cons, List.append_assoc, firstEscaped?_escape] at hfirst
      obtain ⟨rfl, hrest⟩ := Prod.mk.inj (Option.some.inj hfirst)
      obtain ⟨rfl, hr⟩ := ih hrest (congrArg _ hrest)
      exact ⟨rfl, hr⟩

theorem quote_cancel {s s' : String} {rest rest' : List Char} (h : quote s rest = quote s' rest') :
    s = s' ∧ rest = rest' := by
  obtain ⟨hs, hr⟩ := flatMap_escape_cancel (List.cons.inj h).2
  exact ⟨String.toList_inj.mp hs, hr⟩

-- A text does not go on with a number that stands in front of it.
structure IsApart (rest : List Char) : Prop where
  head? : ∀ c ∈ rest.head?, c.isDigit = false

theorem digits_cancel {cs ds rest rest' : List Char} (hc : ∀ c ∈ cs, c.isDigit)
    (hd : ∀ d ∈ ds, d.isDigit) (hr : IsApart rest) (hr' : IsApart rest')
    (h : cs ++ rest = ds ++ rest') : cs = ds ∧ rest = rest' := by
  induction cs generalizing ds
  case nil =>
    cases ds
    case nil => exact ⟨rfl, h⟩
    case cons d ds =>
      obtain rfl : rest = d :: (ds ++ rest') := h
      simp [hr.head? d rfl] at hd
  case cons c cs ih =>
    cases ds
    case nil =>
      obtain rfl : c :: (cs ++ rest) = rest' := h
      simp [hr'.head? c rfl] at hc
    case cons d ds =>
      obtain ⟨rfl, htail⟩ := List.cons.inj h
      obtain ⟨rfl, hr⟩ := ih (List.forall_mem_cons.mp hc).2 (List.forall_mem_cons.mp hd).2 htail
      exact ⟨rfl, hr⟩

theorem toList_toString (n : Nat) : (toString n).toList = Nat.toDigits 10 n := by
  rw [Nat.toString_eq_ofList_toDigits, String.toList_ofList]

theorem isDigit_of_mem_toDigits {n : Nat} : ∀ c ∈ Nat.toDigits 10 n, c.isDigit :=
  fun _ => Nat.isDigit_of_mem_toDigits (by decide) (by decide)

theorem number_cancel {n n' : Nat} {rest rest' : List Char} (hr : IsApart rest) (hr' : IsApart rest')
    (h : (toString n).toList ++ rest = (toString n').toList ++ rest') : n = n' ∧ rest = rest' := by
  rw [toList_toString, toList_toString] at h
  obtain ⟨hn, hr⟩ := digits_cancel isDigit_of_mem_toDigits isDigit_of_mem_toDigits hr hr' h
  refine ⟨?_, hr⟩
  rw [← Nat.ofDigitChars_ten_toDigits (n := n), hn, Nat.ofDigitChars_ten_toDigits]

theorem lineBreak_cancel {level : Nat} {rest rest' : List Char}
    (h : lineBreak level rest = lineBreak level rest') : rest = rest' :=
  List.append_cancel_left (List.cons.inj h).2

-- The kinds of values that can be told apart by the first character.
inductive Kind where
  | null
  | bool
  | number
  | string
  | array
  | object

def kind : Json → Kind
  | null => .null
  | bool _ => .bool
  | number _ => .number
  | string _ => .string
  | array _ => .array
  | object _ => .object

def Kind.ofFirst : Char → Kind
  | 'n' => null
  | 't' | 'f' => bool
  | '"' => string
  | '[' => array
  | '\x7b' => object
  | _ => number

theorem Kind.ofFirst_of_isDigit {c : Char} (h : c.isDigit) : ofFirst c = number := by
  fun_cases ofFirst c
  case case7 => rfl
  all_goals cases h

theorem ofFirst_lines (level : Nat) (x : Json) (rest : List Char) :
    ((x.lines level rest).head?.map Kind.ofFirst) = some x.kind := by
  fun_cases lines level x rest
  case case4 n =>
    obtain ⟨c, text, hn⟩ := List.exists_cons_of_ne_nil (Nat.toDigits_ne_nil (n := n) (b := 10))
    have hc : c.isDigit := isDigit_of_mem_toDigits (n := n) c (hn ▸ .head _)
    rw [toList_toString, hn, List.cons_append, List.head?_cons, Option.map_some,
      Kind.ofFirst_of_isDigit hc, kind]
  all_goals rfl

theorem kind_eq_of_lines {level : Nat} {x y : Json} {rest rest' : List Char}
    (h : x.lines level rest = y.lines level rest') : x.kind = y.kind :=
  Option.some.inj (by rw [← ofFirst_lines level x rest, h, ofFirst_lines])

theorem isApart_nil : IsApart [] :=
  ⟨by simp⟩

theorem isApart_itemLines (level outer : Nat) (xs : List Json) (rest : List Char) :
    IsApart (itemLines level xs (lineBreak outer rest)) := by
  constructor
  cases xs <;> simp [itemLines, lineBreak]

theorem isApart_fieldLines (level outer : Nat) (fields : List (String × Json)) (rest : List Char) :
    IsApart (fieldLines level fields (lineBreak outer rest)) := by
  constructor
  cases fields <;> simp [fieldLines, lineBreak]

mutual

-- By induction on the first value. The second one is of the same kind, since its text begins alike.
theorem lines_cancel (level : Nat) : (x y : Json) → {rest rest' : List Char} → IsApart rest →
    IsApart rest' → x.lines level rest = y.lines level rest' → x = y ∧ rest = rest'
  | null, y, _, _, _, _, h => by
    cases y <;> cases kind_eq_of_lines h
    simpa [lines] using h
  | bool a, y, _, _, _, _, h => by
    cases y <;> cases kind_eq_of_lines h
    case bool b => cases a <;> cases b <;> simp_all [lines]
  | number n, y, _, _, hr, hr', h => by
    cases y <;> cases kind_eq_of_lines h
    case number => simpa using number_cancel hr hr' h
  | string s, y, _, _, _, _, h => by
    cases y <;> cases kind_eq_of_lines h
    case string => simpa using quote_cancel h
  | array [], y, _, _, _, _, h => by
    cases y <;> cases kind_eq_of_lines h
    case array ys => cases ys <;> simp_all [lines, lineBreak]
  | array (x :: xs), y, _, _, _, _, h => by
    cases y <;> cases kind_eq_of_lines h
    case array ys =>
      cases ys
      case nil => simp [lines, lineBreak] at h
      case cons y ys =>
        have hx := lines_cancel (level + 1) x y (isApart_itemLines ..) (isApart_itemLines ..)
          (lineBreak_cancel (List.cons.inj h).2)
        have hxs := itemLines_cancel (level + 1) level xs ys hx.2
        simpa [hx.1, hxs.1] using hxs.2
  | object [], y, _, _, _, _, h => by
    cases y <;> cases kind_eq_of_lines h
    case object ys => cases ys <;> simp_all [lines, lineBreak]
  | object ((key, x) :: xs), y, _, _, _, _, h => by
    cases y <;> cases kind_eq_of_lines h
    case object ys =>
      cases ys
      case nil => simp [lines, lineBreak] at h
      case cons field ys =>
        have hkey := quote_cancel (lineBreak_cancel (List.cons.inj h).2)
        have hx := lines_cancel (level + 1) x field.2 (isApart_fieldLines ..) (isApart_fieldLines ..)
          (List.cons.inj (List.cons.inj hkey.2).2).2
        have hxs := fieldLines_cancel (level + 1) level xs ys hx.2
        simpa [hkey.1, hx.1, hxs.1] using hxs.2

theorem itemLines_cancel (level outer : Nat) : (xs ys : List Json) → {rest rest' : List Char} →
    itemLines level xs (lineBreak outer rest) = itemLines level ys (lineBreak outer rest') →
      xs = ys ∧ rest = rest'
  | [], [], _, _, h => ⟨rfl, lineBreak_cancel h⟩
  | [], _ :: _, _, _, h => by simp [itemLines, lineBreak] at h
  | _ :: _, [], _, _, h => by simp [itemLines, lineBreak] at h
  | x :: xs, y :: ys, _, _, h => by
    have hx := lines_cancel level x y (isApart_itemLines ..) (isApart_itemLines ..)
      (lineBreak_cancel (List.cons.inj h).2)
    have hxs := itemLines_cancel level outer xs ys hx.2
    exact ⟨by rw [hx.1, hxs.1], hxs.2⟩

theorem fieldLines_cancel (level outer : Nat) : (xs ys : List (String × Json)) →
    {rest rest' : List Char} →
    fieldLines level xs (lineBreak outer rest) = fieldLines level ys (lineBreak outer rest') →
      xs = ys ∧ rest = rest'
  | [], [], _, _, h => ⟨rfl, lineBreak_cancel h⟩
  | [], (_, _) :: _, _, _, h => by simp [fieldLines, lineBreak] at h
  | (_, _) :: _, [], _, _, h => by simp [fieldLines, lineBreak] at h
  | (key, x) :: xs, (key', y) :: ys, _, _, h => by
    have hkey := quote_cancel (lineBreak_cancel (List.cons.inj h).2)
    have hx := lines_cancel level x y (isApart_fieldLines ..) (isApart_fieldLines ..)
      (List.cons.inj (List.cons.inj hkey.2).2).2
    have hxs := fieldLines_cancel level outer xs ys hx.2
    exact ⟨by rw [hkey.1, hx.1, hxs.1], hxs.2⟩

end

theorem render_injective : Function.Injective render := by
  intro x y h
  exact (lines_cancel 0 x y isApart_nil isApart_nil (String.ofList_injective h)).1

end ScriptTree.Json
