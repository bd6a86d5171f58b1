import Offside.Proofs.Document.Boundary
import Offside.Proofs.Text.Cut

namespace Offside

open Scan

/-- An edit that replaces a part of a text: what stands before it, what it removes and puts in, and
what stands behind it. -/
theorem Edit.replace?_eq_some {source text new : String} {start stop : Nat} {edit : Edit}
    (h : Edit.replace? source start stop text = some (new, edit)) :
    ∃ before removed after, source.toList = before ++ removed ++ after ∧
      new.toList = before ++ text.toList ++ after ∧ Text.byteSize before = start ∧
      start + Text.byteSize removed = stop ∧
      edit = .replacing start stop (Text.byteSize text.toList) := by
  obtain ⟨cs, hcs, hnew⟩ := Option.map_eq_some_iff.mp h
  obtain ⟨rfl, rfl⟩ := Prod.mk.inj hnew
  obtain ⟨⟨before, rest⟩, hbefore, hcs⟩ := Option.bind_eq_some_iff.mp hcs
  obtain ⟨hsource, hstart⟩ := Text.eq_append_of_splitAtByte? hbefore
  dsimp only at hcs
  split at hcs
  · next hle =>
    obtain ⟨⟨removed, after⟩, hremoved, hcs⟩ := Option.bind_eq_some_iff.mp hcs
    obtain ⟨hrest, hstop⟩ := Text.eq_append_of_splitAtByte? hremoved
    obtain rfl := Option.some.inj hcs
    refine ⟨before, removed, after, ?_, ?_, hstart, by omega, rfl⟩
    · rw [hsource, hrest, List.append_assoc]
    · rw [String.toList_ofList]
  · contradiction

namespace Scan

/-- What a token starts with is no blank, no line end and no comment. -/
theorem State.ReadsToken.startsFlush {s : State} {k : Kind} (h : s.ReadsToken k) :
    StartsFlush s.rest := by
  obtain ⟨c, cs, hrest, hfeed, hk⟩ := h.lexeme
  refine ⟨c, cs, hrest, ?_, hfeed, ?_⟩
  · by_contra hspace
    rw [Bool.not_eq_false] at hspace
    have hletter : Lexeme.isWordStart c = false ∧ c.isDigit = false := by
      simp only [Layout.isSpace, Layout.isIndent, Bool.or_eq_true, beq_iff_eq] at hspace
      rcases hspace with ((rfl | rfl) | rfl) | rfl <;> decide
    rw [Lexeme.recognise, hletter.1, hletter.2, hspace] at hk
    exact absurd hk (Option.some_ne_none k).symm
  · rintro rfl
    have hcomment : (Lexeme.recognise '#' cs).1 = .comment := rfl
    rw [hcomment] at hk
    exact absurd hk (Option.some_ne_none k).symm

end Scan

namespace Document

variable {cfg : Config} {old new text : String} {start stop kept : Nat} {edit : Edit} {offset : Offset}

/-- The statements that an edit leaves alone, and the next one. -/
theorem untouched_spec {d : Document} (h : d.untouched edit = (kept, offset)) :
    kept = 0 ∧ offset = 0 ∨ kept ≠ 0 ∧ ∃ ss s rest, d.body = ss ++ s :: rest ∧ ss.length = kept ∧
      s.span.start = offset ∧ offset < edit.start ∧ d.hasFaultAt offset = false := by
  unfold untouched at h
  dsimp only at h
  split at h
  · obtain ⟨rfl, rfl⟩ := Prod.mk.inj h
    exact Or.inl ⟨rfl, rfl⟩
  · next s earlier hdrop =>
    obtain ⟨rfl, rfl⟩ := Prod.mk.inj h
    refine Or.inr ⟨Nat.succ_ne_zero _, ?_⟩
    have hreverse := List.takeWhile_append_dropWhile (p := fun s : Stmt => d.hasFaultAt s.span.start)
      (l := (d.body.tail.takeWhile fun s => decide (s.span.start < edit.start)).reverse)
    rw [hdrop] at hreverse
    have hnext := congrArg List.reverse hreverse
    rw [List.reverse_reverse, List.reverse_append, List.reverse_cons, List.append_assoc] at hnext
    have htail := List.takeWhile_append_dropWhile (p := fun s : Stmt => decide (s.span.start < edit.start))
      (l := d.body.tail)
    rw [← hnext] at htail
    have hmem : s ∈ d.body.tail.takeWhile fun s => decide (s.span.start < edit.start) := by
      rw [← hnext]
      simp
    have hlt : s.span.start < edit.start :=
      of_decide_eq_true (List.all_eq_true.mp List.all_takeWhile s hmem)
    have hfault : d.hasFaultAt s.span.start = false := by
      have hhead := List.head_dropWhile_not (fun s : Stmt => d.hasFaultAt s.span.start)
        (l := (d.body.tail.takeWhile fun s => decide (s.span.start < edit.start)).reverse)
        (by rw [hdrop]; exact List.cons_ne_nil _ _)
      simpa [hdrop] using hhead
    obtain ⟨rest, hrest⟩ : ∃ rest, d.body.tail = earlier.reverse ++ s :: rest :=
      ⟨_, htail.symm.trans (by rw [List.append_assoc, List.append_assoc]; rfl)⟩
    cases hbody : d.body with
    | nil => simp [hbody] at hrest
    | cons a tail =>
      rw [hbody, List.tail_cons] at hrest
      exact ⟨a :: earlier.reverse, s, rest, by rw [hrest]; rfl, by simp, rfl, hlt, hfault⟩

theorem startsLine_spec {source : String} (h : startsLine source offset = true) :
    ∃ p q, source.toList = p ++ q ∧ Text.byteSize p = offset.toNat ∧
      p.getLast?.getD '\n' = '\n' := by
  unfold startsLine at h
  split at h
  · next p c cs hsplit =>
    obtain ⟨hsource, hsize⟩ := Text.eq_append_of_splitAtByte? hsplit
    exact ⟨p, c :: cs, hsource, hsize, by simpa using (Bool.and_eq_true_iff.mp h).1⟩
  · contradiction

/-- A boundary of an old text that a new text has too: both texts begin with the same characters up to
the one that the next statement starts with, and there the scan of the new text is about to read a
token that begins a statement. -/
structure Resumption (cfg : Config) (old new : String) (ss : List Stmt) where
  boundary : Boundary cfg old ss
  before : List Char
  char : Char
  oldRest : List Char
  newRest : List Char
  old_eq : old.toList = before ++ char :: oldRest
  new_eq : new.toList = before ++ char :: newRest
  pos_eq : boundary.state.pos = Text.byteSize before
  rest_eq : boundary.state.rest = char :: oldRest
  line : before.getLast?.getD '\n' = '\n'
  kind : Kind
  reads : (boundary.state.before (char :: newRest)).ReadsToken kind
  fresh : kind.startsAfresh = true

namespace Resumption

variable {ss : List Stmt} (r : Resumption cfg old new ss)

def state : State := r.boundary.state.before (r.char :: r.newRest)

/-- The scan of the new text comes to the boundary as that of the old one does. -/
theorem reaches : Reaches cfg [] (.start new) r.boundary.emitted r.state := by
  have hread := r.boundary.reads.startsFlush
  have hbefore : Reaches cfg [] ((State.start old).before (r.before ++ r.char :: r.newRest))
      r.boundary.emitted r.state := r.boundary.reaches.before_token (State.sound_start old) rfl
    r.boundary.reads r.old_eq r.rest_eq r.line hread
  have hstart : (State.start old).before (r.before ++ r.char :: r.newRest) = .start new := by
    rw [← r.new_eq]
    rfl
  rwa [hstart] at hbefore

theorem scan_eq : scan cfg new = (run cfg [] r.state).after r.boundary.emitted := r.reaches.run_eq

/-- What the scan of the new text puts out behind the boundary. -/
theorem run_tokens : ∃ us last, (run cfg [] r.state).tokens = us ++ [last] ∧ last.kind = .eof ∧
    ∃ x, us.head? = some x ∧ x.kind = r.kind := by
  obtain ⟨e, t, text, hstep, htokens⟩ := r.reads.step cfg []
  obtain ⟨e₂, u, -, -, hrun⟩ := exists_end cfg t
  refine ⟨e.tokens ++ (e₂.tokens ++ (finish u).tokens), .layout .eof (Span.ofNat u.pos u.pos), ?_, rfl,
    ⟨r.kind, text, Span.ofNat r.state.pos t.pos⟩, by rw [htokens]; rfl, rfl⟩
  rw [state, run_of_next hstep, hrun, List.append_assoc, List.append_assoc]
  rfl

/-- The new text has the statements before the boundary, with their faults. -/
theorem parse_eq (hcancel : cfg.cancel = false) {us : List Token} {last : Token}
    (hrun : (run cfg [] r.state).tokens = us ++ [last]) (hl : last.kind = .eof)
    (hhead : ∃ x, us.head? = some x ∧ x.kind = r.kind) : parse cfg new = ofPart new
      { body := ss ++ (parseRest cfg us last).1
        diagnostics := Diagnostic.sort
          ((r.boundary.emitted.diagnostics ++ (run cfg [] r.state).diagnostics) ++
            (r.boundary.joint.state.diagnostics ++ (parseRest cfg us last).2))
        comments := r.boundary.emitted.comments ++ (run cfg [] r.state).comments
        lineStates := r.boundary.emitted.lineStates ++ (run cfg [] r.state).lineStates } false := by
  have htokens : (scan cfg new).tokens = (r.boundary.joint.before ++ us) ++ [last] := by
    rw [r.scan_eq, r.boundary.before_eq, List.append_assoc, ← hrun]
    rfl
  have hnext : (us.headD last).kind.startsAfresh = true := by
    obtain ⟨x, hx, hk⟩ := hhead
    rw [List.headD_eq_head?_getD, hx, Option.getD_some, hk]
    exact r.fresh
  have hreplace := (r.boundary.joint_clean hcancel).replace hcancel rfl hl hnext
  rw [Document.parse_eq hcancel hl htokens, hreplace, r.scan_eq]
  rfl

end Resumption

theorem resumePoint?_spec {d : Document} (h : d.resumePoint? new edit = some (kept, offset)) :
    kept = 0 ∧ offset = 0 ∨ startsLine new offset = true ∧ ∃ ss s rest, d.body = ss ++ s :: rest ∧
      ss.length = kept ∧ s.span.start = offset ∧ offset < edit.start ∧
      d.hasFaultAt offset = false := by
  unfold resumePoint? at h
  dsimp only at h
  split at h
  swap
  · contradiction
  next hline =>
  have hpair := Option.some.inj h
  refine (untouched_spec hpair).imp_right fun ⟨hkept, hspec⟩ => ⟨?_, hspec⟩
  rcases hline with hzero | hline
  · exact absurd ((congrArg Prod.fst hpair).symm.trans hzero) hkept
  · rwa [congrArg Prod.snd hpair] at hline

/-- A boundary at the start of a line is one of every text that begins with the same characters up to
the one that the next statement starts with, and does not begin another word there. -/
theorem Boundary.exists_resumption {ss : List Stmt} (b : Boundary cfg old ss)
    (hcancel : cfg.cancel = false) {p v v' : List Char} {c : Char} (hold : old.toList = p ++ c :: v)
    (hnew : new.toList = p ++ c :: v') (hpos : b.state.pos = Text.byteSize p)
    (hline : p.getLast?.getD '\n' = '\n')
    (hwords : ∀ t ∈ (scan cfg new).tokens, t.span.start = UInt32.ofNat b.state.pos →
      t.kind ≠ .kwElif ∧ t.kind ≠ .kwElse) :
    ∃ r : Resumption cfg old new ss, r.boundary = b ∧ r.before = p := by
  have hrest : b.state.rest = c :: v := by
    obtain ⟨q, hq, hqpos⟩ := b.reaches.exists_prefix
    have hsize : Text.byteSize q = Text.byteSize p := by
      rw [← hpos, hqpos]
      exact (Nat.zero_add _).symm
    exact (Text.append_inj_of_byteSize (hq.symm.trans hold) hsize).2
  obtain ⟨d, ds, hd, hfeed, hkind⟩ := b.reads.lexeme
  rw [hrest] at hd
  obtain ⟨rfl, rfl⟩ := List.cons.inj hd
  have hstarts : b.joint.first.kind ≠ .notEquals := by
    have hnone := (b.joint_clean hcancel).starts
    rintro heq
    rw [heq] at hnone
    contradiction
  obtain ⟨k, hk⟩ : ∃ k, (Lexeme.recognise c v').1.kind? = some k :=
    Lexeme.recognise_kind?_isSome hkind hstarts
  have hreads : (b.state.before (c :: v')).ReadsToken k :=
    ⟨b.reads.inside, c, v', rfl, hfeed, hk⟩
  -- the token read in the new text is one of its scan, so it is no word that goes on
  have hreach : Reaches cfg [] (.start new) b.emitted (b.state.before (c :: v')) := by
    have hbefore : Reaches cfg [] ((State.start old).before (p ++ c :: v')) b.emitted
        (b.state.before (c :: v')) := b.reaches.before_token (State.sound_start old) rfl b.reads hold
      hrest hline b.reads.startsFlush
    have hbegin : (State.start old).before (p ++ c :: v') = .start new := by
      rw [← hnew]
      rfl
    rwa [hbegin] at hbefore
  obtain ⟨e, t, text, hstep, htokens⟩ := hreads.step cfg []
  have hmem : (⟨k, text, Span.ofNat b.state.pos t.pos⟩ : Token) ∈ (scan cfg new).tokens := by
    rw [scan, hreach.run_eq, run_of_next hstep]
    refine List.mem_append_right _ (List.mem_append_left _ ?_)
    rw [htokens]
    exact List.mem_singleton_self _
  have hfresh : k.startsAfresh = true := by
    have hword := hwords _ hmem rfl
    have hlayout := hreads.isLayout
    revert hword hlayout
    cases k <;> simp [Kind.startsAfresh, Kind.isLayout]
  exact ⟨⟨b, p, c, v, v', hold, hnew, hpos, hrest, hline, k, hreads, hfresh⟩, rfl, rfl⟩

section Edit

variable (hcancel : cfg.cancel = false) (hold : Text.byteSize old.toList < UInt32.size)
  (hedit : Edit.replace? old start stop text = some (new, edit))
  (hwords : ∀ s ∈ (parse cfg old).body, s.span.start < edit.start →
    ∀ t ∈ (scan cfg new).tokens, t.span.start = s.span.start → t.kind ≠ .kwElif ∧ t.kind ≠ .kwElse)

include hcancel hold hedit hwords

/-- Where statements are kept, the new text has their end as a boundary. -/
theorem exists_resumption (h : (parse cfg old).resumePoint? new edit = some (kept, offset)) :
    kept = 0 ∧ offset = 0 ∨ ∃ ss, ∃ r : Resumption cfg old new ss,
      (parse cfg old).body.take kept = ss ∧ ss.length = kept ∧
      offset = UInt32.ofNat r.boundary.state.pos ∧ r.boundary.state.pos < start := by
  refine (resumePoint?_spec h).imp_right fun ⟨hline, ss, s, rest, hbody, hlength, hstart, hlt, hfault⟩ => ?_
  have hclean : ∀ d ∈ (parse cfg old).diagnostics, d.span.start ≠ s.span.start := by
    intro d hd heq
    have hnone := List.any_eq_false.mp hfault d hd
    rw [← hstart, heq] at hnone
    simp at hnone
  obtain ⟨b, -, hpos⟩ := exists_boundary hcancel hbody hclean
  obtain ⟨before, removed, after, hbefore, hnew, hsize, -, rfl⟩ := Edit.replace?_eq_some hedit
  have hoffset : offset = UInt32.ofNat b.state.pos := hstart.symm.trans hpos
  have hposlt := b.pos_lt hold
  have hlt' : b.state.pos < start := by
    have hbound : start < UInt32.size := by
      rw [hbefore, Text.byteSize_append, Text.byteSize_append] at hold
      omega
    rw [hoffset, UInt32.lt_iff_toNat_lt, Offset.toNat_ofNat hposlt] at hlt
    exact Nat.lt_of_lt_of_eq hlt (Offset.toNat_ofNat hbound)
  obtain ⟨p, hp, hppos⟩ := b.reaches.exists_prefix
  have hppos : b.state.pos = Text.byteSize p := hppos.trans (Nat.zero_add _)
  obtain ⟨c, v, hrest, -⟩ := b.reads.lexeme
  have hold_eq : old.toList = p ++ c :: v := by
    rw [← hrest]
    exact hp
  -- the edit begins behind the first character of the next statement
  obtain ⟨w, hw, -⟩ := Text.cons_prefix_of_lt (b := removed ++ after) (c := c) (v := v) (p := p)
    (by rw [← List.append_assoc, ← hbefore, hold_eq]) (by omega)
  have hnew_eq : new.toList = p ++ c :: (w ++ (text.toList ++ after)) := by
    rw [hnew, hw]
    simp
  have hpline : p.getLast?.getD '\n' = '\n' := by
    obtain ⟨p', q, hnew', hsize', hlast⟩ := startsLine_spec hline
    have hsame : Text.byteSize p' = Text.byteSize p := by
      rw [hsize', hoffset, Offset.toNat_ofNat hposlt, hppos]
    rw [← (Text.append_inj_of_byteSize (hnew'.symm.trans hnew_eq) hsame).1]
    exact hlast
  obtain ⟨r, rfl, -⟩ := b.exists_resumption hcancel hold_eq hnew_eq hppos hpline fun t ht hstart' =>
    hwords s (by rw [hbody]; simp) (hstart ▸ hlt) t ht (hstart'.trans hpos.symm)
  exact ⟨ss, r, by rw [hbody, ← hlength, List.take_left], hlength, hoffset, hlt'⟩

/-- The statements that an edit leaves alone are the first ones of the new text, unless the edit makes
the first word of the next one `elif` or `else`. -/
theorem kept_statements (h : (parse cfg old).resumePoint? new edit = some (kept, offset)) :
    (parse cfg new).body.take kept = (parse cfg old).body.take kept := by
  rcases exists_resumption hcancel hold hedit hwords h with ⟨rfl, -⟩ | ⟨ss, r, htake, hlength, -⟩
  · rfl
  · obtain ⟨us, last, hrun, hl, hhead⟩ := r.run_tokens
    rw [htake, r.parse_eq hcancel hrun hl hhead, ← hlength]
    exact List.take_left

end Edit

/-- An edit inside the last statement keeps the conditional before it. -/
theorem kept_statements_conditional :
    Edit.replace? "if a:\n  b\nc = 1\n" 14 15 "d" = some ("if a:\n  b\nc = d\n", ⟨14, 15, 15⟩) ∧
      (parse {} "if a:\n  b\nc = 1\n").resumePoint? "if a:\n  b\nc = d\n" ⟨14, 15, 15⟩ = some (1, 10) ∧
      (parse {} "if a:\n  b\nc = d\n").body.take 1 = (parse {} "if a:\n  b\nc = 1\n").body.take 1 := by
  have hedit : Edit.replace? "if a:\n  b\nc = 1\n" 14 15 "d" =
      some ("if a:\n  b\nc = d\n", ⟨14, 15, 15⟩) := by decide +kernel
  have hresume : (parse {} "if a:\n  b\nc = 1\n").resumePoint? "if a:\n  b\nc = d\n" ⟨14, 15, 15⟩ =
      some (1, 10) := by decide +kernel
  exact ⟨hedit, hresume,
    kept_statements rfl (by decide +kernel) hedit (by decide +kernel) hresume⟩

/-- An edit that makes `elsa` the word `else` changes the conditional before it, which is kept. -/
theorem kept_conditional_before_else :
    Edit.replace? "if a:\n  b\nelsa: c\n" 13 14 "e" = some ("if a:\n  b\nelse: c\n", ⟨13, 14, 14⟩) ∧
      (parse {} "if a:\n  b\nelsa: c\n").resumePoint? "if a:\n  b\nelse: c\n" ⟨13, 14, 14⟩ =
        some (1, 10) ∧
      ((parse {} "if a:\n  b\nelse: c\n").body.take 1).map Stmt.span ≠
        ((parse {} "if a:\n  b\nelsa: c\n").body.take 1).map Stmt.span := by
  decide +kernel

end Document

end Offside
