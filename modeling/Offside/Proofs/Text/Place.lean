import Mathlib.Data.List.DropRight
import Offside.Text.Lines

namespace Offside.Text

section Feeds

def bytes (cs : List Char) : List UInt8 := cs.flatMap String.utf8EncodeChar

def unfed (b : UInt8) : Bool := b ≠ 10

@[simp]
theorem bytes_append (as cs : List Char) : bytes (as ++ cs) = bytes as ++ bytes cs :=
  List.flatMap_append

theorem bytes_feed (cs : List Char) : bytes ('\n' :: cs) = 10 :: bytes cs := rfl

@[simp]
theorem length_bytes (cs : List Char) : (bytes cs).length = byteSize cs := by
  induction cs with
  | nil => rfl
  | cons c cs ih =>
    rw [bytes, List.flatMap_cons, List.length_append, String.length_utf8EncodeChar, byteSize_cons,
      ← ih, bytes]

theorem unfed_or {k : UInt8} (h : 10 < k) (b : UInt8) : unfed (b ||| k) := by
  have hle : k.toNat ≤ (b ||| k).toNat := by
    rw [UInt8.toNat_or]
    exact Nat.right_le_or
  have hlt : 10 < k.toNat := h
  simp only [unfed, ne_eq, decide_eq_true_eq]
  intro heq
  rw [heq] at hle
  exact absurd hle (Nat.not_le.mpr hlt)

/-- No byte of any other character is a line feed: the bytes of a longer form all have their top bit
set. -/
theorem unfed_utf8EncodeChar {c : Char} (hc : c ≠ '\n') :
    ∀ b ∈ String.utf8EncodeChar c, unfed b := by
  rcases Char.utf8Size_eq c with h | h | h | h
  · rw [String.utf8EncodeChar_eq_singleton h]
    have hsmall := UInt32.le_iff_toNat_le.mp (Char.utf8Size_eq_one_iff.mp h)
    simp only [List.mem_singleton, forall_eq, unfed, ne_eq, decide_eq_true_eq]
    intro heq
    refine hc (Char.ext (UInt32.toNat_inj.mp ?_))
    have hbyte := congrArg UInt8.toNat heq
    rw [UInt32.toNat_toUInt8] at hbyte
    change c.val.toNat % 256 = 10 at hbyte
    change c.val.toNat ≤ 127 at hsmall
    change c.val.toNat = 10
    omega
  · rw [String.utf8EncodeChar_eq_cons_cons h]
    simp only [List.forall_mem_cons]
    exact ⟨unfed_or (by decide) _, unfed_or (by decide) _, List.forall_mem_nil _⟩
  · rw [String.utf8EncodeChar_eq_cons_cons_cons h]
    simp only [List.forall_mem_cons]
    exact ⟨unfed_or (by decide) _, unfed_or (by decide) _, unfed_or (by decide) _,
      List.forall_mem_nil _⟩
  · rw [String.utf8EncodeChar_eq_cons_cons_cons_cons h]
    simp only [List.forall_mem_cons]
    exact ⟨unfed_or (by decide) _, unfed_or (by decide) _, unfed_or (by decide) _,
      unfed_or (by decide) _, List.forall_mem_nil _⟩

theorem unfed_bytes {cs : List Char} (h : '\n' ∉ cs) : ∀ b ∈ bytes cs, unfed b := by
  intro b hb
  obtain ⟨c, hc, hb⟩ := List.mem_flatMap.mp hb
  exact unfed_utf8EncodeChar (fun heq => h (heq ▸ hc)) b hb

theorem unfed_take {cs : List Char} (h : '\n' ∉ cs) (n : Nat) : ∀ b ∈ (bytes cs).take n, unfed b :=
  fun b hb => unfed_bytes h b (List.mem_of_mem_take hb)

theorem unfed_drop {cs : List Char} (h : '\n' ∉ cs) (n : Nat) : ∀ b ∈ (bytes cs).drop n, unfed b :=
  fun b hb => unfed_bytes h b (List.mem_of_mem_drop hb)

end Feeds

section Runs

variable {as bs : List UInt8}

theorem count_unfed (h : ∀ b ∈ as, unfed b) : as.count 10 = 0 :=
  List.count_eq_zero.mpr fun hmem => absurd (h 10 hmem) (by decide)

theorem takeWhile_feed (h : ∀ b ∈ as, unfed b) : (as ++ 10 :: bs).takeWhile unfed = as := by
  rw [List.takeWhile_append_of_pos h, List.takeWhile_cons_of_neg (by decide), List.append_nil]

theorem dropWhile_feed (h : ∀ b ∈ as, unfed b) : (as ++ 10 :: bs).dropWhile unfed = 10 :: bs := by
  rw [List.dropWhile_append_of_pos h, List.dropWhile_cons_of_neg (by decide)]

theorem rtakeWhile_feed : (as ++ 10 :: bs).rtakeWhile unfed = bs.rtakeWhile unfed := by
  induction bs using List.reverseRecOn with
  | nil => rw [List.rtakeWhile_concat_neg _ _ _ (by decide), List.rtakeWhile_nil]
  | append_singleton bs b ih =>
    rw [← List.cons_append, ← List.append_assoc, List.rtakeWhile_concat, List.rtakeWhile_concat, ih]

end Runs

/-- What the bytes of a text say of an offset into it, where the first line has the given number. -/
structure Place.At (text : List UInt8) (offset first : Nat) (p : Place) : Prop where
  number : p.number = first + (text.take offset).count 10
  line : bytes p.line = (text.take offset).rtakeWhile unfed ++
    ((text.drop offset).takeWhile unfed ++ ((text.drop offset).dropWhile unfed).take 1)
  column : p.column = ((text.take offset).rtakeWhile unfed).length

section Lines

variable {cs rest : List Char} {offset first : Nat}

theorem lines_unfed (h : '\n' ∉ cs) (hne : cs ≠ []) : lines cs = [cs] := by
  induction cs with
  | nil => exact absurd rfl hne
  | cons c cs ih =>
    obtain ⟨hc, hcs⟩ := not_or.mp (mt List.mem_cons.mpr h)
    rw [lines, if_neg (Ne.symm hc)]
    cases cs with
    | nil => rfl
    | cons d cs => rw [ih hcs (List.cons_ne_nil d cs)]

theorem lines_feed (h : '\n' ∉ cs) (rest : List Char) :
    lines (cs ++ '\n' :: rest) = (cs ++ ['\n']) :: lines rest := by
  induction cs with
  | nil => simp [lines]
  | cons c cs ih =>
    obtain ⟨hc, hcs⟩ := not_or.mp (mt List.mem_cons.mpr h)
    rw [List.cons_append, lines, if_neg (Ne.symm hc), ih hcs, List.cons_append]

theorem lastLine_unfed (h : '\n' ∉ cs) : lastLine cs = cs := by
  rw [lastLine, List.takeWhile_eq_self_iff.mpr, List.reverse_reverse]
  intro c hc
  simpa using fun heq : c = '\n' => h (heq ▸ List.mem_reverse.mp hc)

theorem lastLine_feed (cs rest : List Char) : lastLine (cs ++ '\n' :: rest) = lastLine rest := by
  have hreverse : (cs ++ '\n' :: rest).reverse = rest.reverse ++ '\n' :: cs.reverse := by simp
  rw [lastLine, lastLine, hreverse]
  by_cases hfeed : ∀ c ∈ rest.reverse, decide (c ≠ '\n') = true
  · rw [List.takeWhile_append_of_pos hfeed, List.takeWhile_cons_of_neg (by decide), List.append_nil,
      List.takeWhile_eq_self_iff.mpr hfeed]
  · rw [List.takeWhile_append, if_neg]
    exact fun hlength => hfeed (List.takeWhile_eq_self_iff.mp
      ((List.takeWhile_prefix _).eq_of_length hlength))

theorem place_line (h : '\n' ∉ cs) (hle : offset ≤ byteSize cs) (hne : cs ≠ []) :
    placeFrom first cs offset = ⟨first, cs, offset⟩ := by
  rw [placeFrom, lines_unfed h hne, placeIn]
  rcases Nat.lt_or_eq_of_le hle with hlt | rfl
  · rw [if_pos hlt]
  · -- behind the last byte the number is counted back
    have hlast : cs.getLast? ≠ some '\n' := fun hlast => h (List.mem_of_getLast? hlast)
    rw [if_neg (Nat.lt_irrefl _), placeIn]
    dsimp only
    rw [placeBehind, if_neg hlast, lastLine_unfed h, Nat.add_sub_cancel]

theorem place_feed (h : '\n' ∉ cs) (hle : offset ≤ byteSize cs) :
    placeFrom first (cs ++ '\n' :: rest) offset = ⟨first, cs ++ ['\n'], offset⟩ := by
  rw [placeFrom, lines_feed h, placeIn, if_pos]
  rw [byteSize_append]
  exact Nat.lt_of_le_of_lt hle (Nat.lt_succ_self _)

theorem place_later (h : '\n' ∉ cs) (hne : rest ≠ []) :
    placeFrom first (cs ++ '\n' :: rest) (byteSize cs + 1 + offset) = placeFrom (first + 1) rest offset := by
  have hsize : byteSize (cs ++ ['\n']) = byteSize cs + 1 := byteSize_append cs ['\n']
  have hbehind (n : Nat) : placeBehind (cs ++ '\n' :: rest) n = placeBehind rest n := by
    rw [placeBehind, placeBehind, lastLine_feed, List.getLast?_append, List.getLast?_cons_of_ne_nil hne,
      Option.or_of_isSome (by simpa using hne)]
  rw [placeFrom, placeFrom, lines_feed h, placeIn, hsize, if_neg (by omega), Nat.add_sub_cancel_left]
  simp only [hbehind]

theorem place_end (h : '\n' ∉ cs) :
    placeFrom first (cs ++ ['\n']) (byteSize cs + 1) = ⟨first + 1, [], 0⟩ := by
  have hsize : byteSize (cs ++ ['\n']) = byteSize cs + 1 := byteSize_append cs ['\n']
  rw [placeFrom, lines_feed h, placeIn, hsize, if_neg (Nat.lt_irrefl _), lines, placeIn]
  exact if_pos List.getLast?_concat

/-- On the last line, which has no line feed. -/
theorem place_at_last (h : '\n' ∉ cs) (hle : offset ≤ byteSize cs) :
    Place.At (bytes cs) offset first ⟨first, cs, offset⟩ := by
  have hbefore := unfed_take h offset
  have hafter := unfed_drop h offset
  constructor
  · rw [count_unfed hbefore, Nat.add_zero]
  · rw [List.rtakeWhile_eq_self_iff.mpr hbefore, List.takeWhile_eq_self_iff.mpr hafter,
      List.dropWhile_eq_nil_iff.mpr hafter, List.take_nil, List.append_nil, List.take_append_drop]
  · rw [List.rtakeWhile_eq_self_iff.mpr hbefore, List.length_take, length_bytes,
      Nat.min_eq_left hle]

/-- On a line that ends with a line feed. -/
theorem place_at_line (h : '\n' ∉ cs) (hle : offset ≤ byteSize cs) :
    Place.At (bytes (cs ++ '\n' :: rest)) offset first ⟨first, cs ++ ['\n'], offset⟩ := by
  have hbefore := unfed_take h offset
  have hafter := unfed_drop h offset
  have hlength : offset ≤ (bytes cs).length := by rwa [length_bytes]
  rw [bytes_append, bytes_feed]
  constructor
  · rw [List.take_append_of_le_length hlength, count_unfed hbefore, Nat.add_zero]
  · rw [List.take_append_of_le_length hlength, List.drop_append_of_le_length hlength,
      List.rtakeWhile_eq_self_iff.mpr hbefore, takeWhile_feed hafter, dropWhile_feed hafter,
      bytes_append, bytes_feed, ← List.append_assoc, List.take_append_drop]
    rfl
  · rw [List.take_append_of_le_length hlength, List.rtakeWhile_eq_self_iff.mpr hbefore,
      List.length_take, Nat.min_eq_left hlength]

/-- Behind a line, an offset is where it is in the rest. -/
theorem place_at_later {p : Place} (h : '\n' ∉ cs) (hrest : p.At (bytes rest) offset (first + 1)) :
    p.At (bytes (cs ++ '\n' :: rest)) (byteSize cs + 1 + offset) first := by
  have hsize : byteSize (cs ++ ['\n']) = byteSize cs + 1 := byteSize_append cs ['\n']
  have hlength : (bytes (cs ++ ['\n'])).length = byteSize cs + 1 := by rw [length_bytes, hsize]
  have hbytes : bytes (cs ++ '\n' :: rest) = bytes (cs ++ ['\n']) ++ bytes rest := by
    rw [← bytes_append, List.append_assoc]
    rfl
  have htake : (bytes (cs ++ '\n' :: rest)).take (byteSize cs + 1 + offset) =
      bytes cs ++ 10 :: (bytes rest).take offset := by
    rw [hbytes, ← hlength, List.take_length_add_append, bytes_append, List.append_assoc]
    rfl
  have hdrop : (bytes (cs ++ '\n' :: rest)).drop (byteSize cs + 1 + offset) =
      (bytes rest).drop offset := by
    rw [hbytes, ← hlength, List.drop_length_add_append]
  constructor
  · rw [hrest.number, htake, List.count_append, count_unfed (unfed_bytes h), List.count_cons_self]
    omega
  · rw [hrest.line, htake, hdrop, rtakeWhile_feed]
  · rw [hrest.column, htake, rtakeWhile_feed]

theorem place_at_empty (first : Nat) : Place.At (bytes []) 0 first ⟨first, [], 0⟩ := ⟨rfl, rfl, rfl⟩

/-- Line after line: an offset lies on the first line or behind it. -/
theorem place_at (first : Nat) (hne : cs ≠ []) (hle : offset ≤ byteSize cs) :
    Place.At (bytes cs) offset first (placeFrom first cs offset) := by
  induction hn : cs.length using Nat.strong_induction_on generalizing cs offset first with
  | _ n ih =>
    by_cases hfeed : '\n' ∈ cs
    · obtain ⟨line, rest, rfl, hline⟩ := List.eq_append_cons_of_mem hfeed
      rcases Nat.lt_or_ge (byteSize line) offset with hlt | hge
      · obtain ⟨later, rfl⟩ := Nat.exists_eq_add_of_le hlt
        have hlater : later ≤ byteSize rest := by
          have hsize : byteSize (line ++ '\n' :: rest) = byteSize line + (1 + byteSize rest) :=
            byteSize_append line ('\n' :: rest)
          omega
        by_cases hrest : rest = []
        · subst hrest
          obtain rfl : later = 0 := Nat.le_zero.mp hlater
          rw [Nat.add_zero, place_end hline]
          exact place_at_later hline (place_at_empty (first + 1))
        · have hshort : rest.length < n := by
            rw [← hn, List.length_append, List.length_cons]
            omega
          rw [place_later hline hrest]
          exact place_at_later hline (ih rest.length hshort (first + 1) hrest hlater rfl)
      · rw [place_feed hline hge]
        exact place_at_line hline hge
    · rw [place_line hfeed hle hne]
      exact place_at_last hfeed hle

end Lines

/-- The place of an offset, of which what reaches past the end counts as the end: its number counts
the line feeds in front, its line reaches from the last of them through the next one, and its column
is the distance from the start of that line. Only the empty text has a line with the number 0. -/
theorem place_exact (cs : List Char) (offset : Nat) :
    Place.At (bytes cs) (min offset (bytes cs).length) (if cs = [] then 0 else 1)
      (place cs offset) := by
  rw [length_bytes, place]
  split
  · next h =>
    subst h
    rw [byteSize_nil, Nat.min_zero]
    exact place_at_empty 0
  · next h => exact place_at 1 h (Nat.min_le_right _ _)

/-- Counting from 1 fails for the empty text. -/
theorem not_place_at_one :
    ¬ ∀ cs offset, Place.At (bytes cs) (min offset (bytes cs).length) 1 (place cs offset) :=
  fun h => absurd (h [] 0).number (by decide)

end Offside.Text
