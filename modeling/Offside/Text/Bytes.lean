namespace Offside.Text

def byteSize : List Char → Nat
  | [] => 0
  | c :: cs => c.utf8Size + byteSize cs

/-- Cuts a text at a byte offset; there is no cut inside a character or past the end. -/
def splitAtByte? : Nat → List Char → Option (List Char × List Char)
  | 0, cs => some ([], cs)
  | _, [] => none
  | n, c :: cs =>
    if c.utf8Size ≤ n then
      (splitAtByte? (n - c.utf8Size) cs).map fun (before, after) => (c :: before, after)
    else none

def replaceBytes? (start stop : Nat) (new cs : List Char) : Option (List Char) := do
  let (before, rest) ← splitAtByte? start cs
  if start ≤ stop then
    let (_, after) ← splitAtByte? (stop - start) rest
    return before ++ new ++ after
  else none

@[simp]
theorem byteSize_nil : byteSize [] = 0 := rfl

@[simp]
theorem byteSize_cons (c : Char) (cs : List Char) :
    byteSize (c :: cs) = c.utf8Size + byteSize cs := rfl

@[simp]
theorem byteSize_append (a b : List Char) : byteSize (a ++ b) = byteSize a + byteSize b := by
  induction a with
  | nil => simp
  | cons c a ih => simp [ih, Nat.add_assoc]

/-- The two parts of a cut make up the text, and the first has the requested size. -/
theorem eq_append_of_splitAtByte? {n : Nat} {cs a b : List Char}
    (h : splitAtByte? n cs = some (a, b)) : cs = a ++ b ∧ byteSize a = n := by
  fun_induction splitAtByte? n cs generalizing a b with
  | case1 cs =>
    simp only [Option.some.injEq, Prod.mk.injEq] at h
    obtain ⟨rfl, rfl⟩ := h
    simp
  | case2 => simp at h
  | case3 n c cs _ hle ih =>
    simp only [Option.map_eq_some_iff, Prod.exists, Prod.mk.injEq] at h
    obtain ⟨a', b', hs, rfl, rfl⟩ := h
    obtain ⟨rfl, hsize⟩ := ih hs
    exact ⟨rfl, by simp only [byteSize_cons]; omega⟩
  | case4 => simp at h

end Offside.Text
