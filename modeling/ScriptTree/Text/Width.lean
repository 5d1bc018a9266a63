/-!
The width of text in bytes of UTF-8, the unit of every offset.

`byteWidth_toList` says that it is the width the text has in memory, so an offset found by counting
over characters is the offset into the text.
-/

namespace ScriptTree

/-- How many bytes a run of characters takes in UTF-8. -/
def byteWidth (cs : List Char) : Nat :=
  cs.foldr (fun c width => c.utf8Size + width) 0

@[simp] theorem byteWidth_nil : byteWidth [] = 0 := rfl

@[simp] theorem byteWidth_cons (c : Char) (cs : List Char) :
    byteWidth (c :: cs) = c.utf8Size + byteWidth cs :=
  rfl

@[simp] theorem byteWidth_append (cs ds : List Char) :
    byteWidth (cs ++ ds) = byteWidth cs + byteWidth ds := by
  induction cs with
  | nil => simp
  | cons c cs ih => simp [ih, Nat.add_assoc]

@[simp] theorem byteWidth_reverse (cs : List Char) : byteWidth cs.reverse = byteWidth cs := by
  induction cs with
  | nil => simp
  | cons c cs ih => simp [ih, Nat.add_comm]

-- A piece of text that is not empty therefore moves an offset.
theorem length_le_byteWidth (cs : List Char) : cs.length ≤ byteWidth cs := by
  induction cs with
  | nil => simp
  | cons c cs ih =>
    have := c.utf8Size_pos
    simp only [List.length_cons, byteWidth_cons]
    omega

-- An offset stands for one place only: two beginnings of a text of the same width are the same.
theorem eq_of_prefix_of_byteWidth_eq {cs ds text : List Char} (hc : cs <+: text) (hd : ds <+: text)
    (h : byteWidth cs = byteWidth ds) : cs = ds := by
  induction cs generalizing ds text with
  | nil =>
    have := length_le_byteWidth ds
    exact (List.length_eq_zero_iff.mp (by simp at h; omega)).symm
  | cons c cs ih =>
    have := c.utf8Size_pos
    match ds, text with
    | [], _ => simp at h; omega
    | d :: ds, [] => simp at hd
    | d :: ds, _ :: text =>
      have ⟨rfl, hc⟩ := List.cons_prefix_cons.mp hc
      have ⟨rfl, hd⟩ := List.cons_prefix_cons.mp hd
      simp only [byteWidth_cons, Nat.add_left_cancel_iff] at h
      rw [ih hc hd h]

theorem byteWidth_eq_utf8ByteSize (cs : List Char) :
    byteWidth cs = (String.ofList cs).utf8ByteSize := by
  induction cs with
  | nil => simp
  | cons c cs ih => simp [String.ofList_cons, String.utf8ByteSize_append, ih]

theorem byteWidth_toList (s : String) : byteWidth s.toList = s.utf8ByteSize := by
  rw [byteWidth_eq_utf8ByteSize, String.ofList_toList]

end ScriptTree
