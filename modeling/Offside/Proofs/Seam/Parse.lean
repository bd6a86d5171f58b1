import Offside.Proofs.Seam.Stream
import Offside.Proofs.Span

namespace Offside

open Grammar

def parseRest (cfg : Config) (ts : List Token) (last : Token) : List Stmt × List Diagnostic :=
  ((streamLoop cfg { cursor := ⟨none, ts, last⟩ }).1,
    (streamLoop cfg { cursor := ⟨none, ts, last⟩ }).2.diagnostics)

variable {cfg : Config} {q r : Progress} {ss : List Stmt} {ts us : List Token} {last last' : Token}
  {f : Offset → Offset}

theorem parse_run (hl : last.kind = .eof) :
    Grammar.parse cfg (ts ++ [last]) = ⟨(parseRest cfg ts last).1, (parseRest cfg ts last).2,
      (streamLoop cfg { cursor := ⟨none, ts, last⟩ }).2.cancelled cfg⟩ := by
  have hcursor : Cursor.ofTokens (ts ++ [last]) = ⟨none, ts, last⟩ := by
    simp [Cursor.ofTokens, hl]
  rw [Grammar.parse, topLevel, hcursor]
  rfl

theorem parse_eq (hcancel : cfg.cancel = false) (hl : last.kind = .eof) :
    Grammar.parse cfg (ts ++ [last]) =
      ⟨(parseRest cfg ts last).1, (parseRest cfg ts last).2, false⟩ := by
  rw [parse_run hl, Progress.cancelled_eq _ hcancel]

theorem streamLoop_eof (h : q.cursor.kind = .eof) : streamLoop cfg q = ([], q) :=
  Seam.statements_stop (by simpa using h)

theorem parseRest_nil (hl : last.kind = .eof) : parseRest cfg [] last = ([], []) := by
  rw [parseRest, streamLoop_eof (q := { cursor := ⟨none, [], last⟩ }) hl]

/-- Streams with moved positions have moved statements and faults, whatever came before them, if the
flag has been looked at as often. -/
theorem streamLoop_moved (cfg : Config) (hmax : ∀ a b, f (max a b) = max (f a) (f b)) (q q' : Progress)
    (hpolls : cfg.cancel = true → q'.polls = q.polls) (hrest : q'.cursor.rest = relocate f q.cursor.rest)
    (hlast : q'.cursor.last = relocate f q.cursor.last) (hl : q.cursor.last.kind = .eof) :
    ∃ new, (streamLoop cfg q).2.diagnostics = q.diagnostics ++ new ∧
      (streamLoop cfg q').1 = relocate f (streamLoop cfg q).1 ∧
      (streamLoop cfg q').2.diagnostics = q'.diagnostics ++ relocate f new ∧
      (streamLoop cfg q').2.cancelled cfg = (streamLoop cfg q).2.cancelled cfg := by
  let S := Seam.moved f cfg.cancel q.cursor.last hl q.diagnostics q'.diagnostics
  have hq : S.On S.Abreast q q' := by
    refine ⟨Seam.moved_abreast hrest rfl hlast, [], ?_, ?_, hpolls⟩
    · exact (List.append_nil _).symm
    · exact (List.append_nil _).symm
  obtain ⟨hbody, hon⟩ := Seam.streamLoop_agree (fun h => h) hmax rfl hq
  obtain ⟨-, new, hnew, hnew', -⟩ := id hon
  exact ⟨new, hnew, hbody, hnew', hon.cancelled fun h => h⟩

theorem Cursor.ofTokens_relocate (hzero : f 0 = 0) (ts : List Token) :
    (Cursor.ofTokens (relocate f ts)).rest = relocate f (Cursor.ofTokens ts).rest ∧
      (Cursor.ofTokens (relocate f ts)).last = relocate f (Cursor.ofTokens ts).last ∧
      (Cursor.ofTokens ts).last.kind = .eof := by
  have hlast : (relocate f ts).getLast? = ts.getLast?.map (relocate f) := List.getLast?_map
  unfold Cursor.ofTokens
  rw [hlast]
  cases ts.getLast? with
  | none =>
    refine ⟨rfl, ?_, rfl⟩
    change Token.mk _ _ (Span.mk 0 0) = ⟨_, _, ⟨f 0, f 0⟩⟩
    rw [hzero]
    rfl
  | some t =>
    rw [Option.map_some]
    dsimp only [kind_relocate]
    split
    · next heof => exact ⟨(List.map_dropLast ..).symm, rfl, heof⟩
    · exact ⟨rfl, rfl, rfl⟩

/-- A parse follows its positions, if the move keeps the greater of two positions and the first one. -/
theorem Grammar.parse_relocate (cfg : Config) (hmax : ∀ a b, f (max a b) = max (f a) (f b))
    (hzero : f 0 = 0) (ts : List Token) : Grammar.parse cfg (relocate f ts) =
      ⟨relocate f (Grammar.parse cfg ts).body, relocate f (Grammar.parse cfg ts).diagnostics,
        (Grammar.parse cfg ts).cancelled⟩ := by
  obtain ⟨hrest, hlast, hl⟩ := Cursor.ofTokens_relocate hzero ts
  obtain ⟨new, hnew, hbody, hdiagnostics, hcancelled⟩ := streamLoop_moved cfg hmax
    { cursor := Cursor.ofTokens ts } { cursor := Cursor.ofTokens (relocate f ts) } (fun _ => rfl) hrest hlast hl
  rw [List.nil_append] at hnew hdiagnostics
  rw [← hnew] at hdiagnostics
  exact congr (congr (congrArg Grammar.Parsed.mk hbody) hdiagnostics) hcancelled

theorem relocate_id_list {α : Type} [Relocate α] (h : ∀ a : α, relocate id a = a) (as : List α) :
    relocate id as = as := by
  change as.map (relocate id) = as
  rw [funext h]
  exact List.map_id' _

theorem relocate_id_stmts (ss : List Stmt) : relocate id ss = ss :=
  relocate_id_list Stmt.mapSpans_id ss

/-- The loop does not depend on what came before it. -/
theorem streamLoop_eq (hcancel : cfg.cancel = false) (hl : q.cursor.last.kind = .eof) :
    (streamLoop cfg q).1 = (parseRest cfg q.cursor.rest q.cursor.last).1 ∧
      (streamLoop cfg q).2.diagnostics =
        q.diagnostics ++ (parseRest cfg q.cursor.rest q.cursor.last).2 := by
  have hpolls (h : cfg.cancel = true) : q.polls = 0 := absurd (hcancel.symm.trans h) Bool.false_ne_true
  obtain ⟨new, hnew, hbody, hdiagnostics, -⟩ := streamLoop_moved cfg (f := id) (fun _ _ => rfl)
    { cursor := ⟨none, q.cursor.rest, q.cursor.last⟩ } q hpolls
    (relocate_id_list (fun _ => rfl) _).symm rfl hl
  rw [relocate_id_stmts] at hbody
  rw [relocate_id_list fun _ => rfl] at hdiagnostics
  refine ⟨hbody, ?_⟩
  rw [hdiagnostics, parseRest]
  exact congrArg _ hnew.symm

/-- Rounds over the first part of a stream are the same before any other tokens that leave them
alone, unless they find a fault at the end of that part. -/
theorem passes_joint (hcancel : cfg.cancel = false) {tail : List Token}
    (h : Passes cfg { cursor := ⟨none, ts ++ tail, last⟩ } ss r)
    (hl : last.kind = .eof) (hl' : last'.kind = .eof)
    (hcut : Cut ts (tail.headD last) (us.headD last'))
    (hle : tail.length ≤ r.cursor.remaining)
    (hfault : ∀ d ∈ r.diagnostics, d.span.start ≠ (tail.headD last).span.start) :
    ∃ r' done rest, Passes cfg { cursor := ⟨none, ts ++ us, last'⟩ } ss r' ∧
      r'.diagnostics = r.diagnostics ∧ r'.cursor.rest = rest ++ us ∧ r'.cursor.last = last' ∧
      r.cursor.rest = rest ++ tail ∧ ts = done ++ rest ∧ Depth.along {} done = .flat 0 := by
  let S : Seam :=
    { move := id
      window := some ts
      cancels := false
      tail
      tail' := us
      last
      last'
      faults := []
      faults' := []
      last_kind := hl
      last_kind' := hl'
      whole := nofun
      uncut := nofun
      cut := fun w hw => by
        obtain rfl := Option.some.inj hw
        exact hcut }
  have hsame {α : Type} [Relocate α] (h : ∀ a : α, relocate id a = a) (as : List α) :
      relocate S.move as = as := relocate_id_list h as
  have hq : S.On S.Abreast { cursor := ⟨none, ts ++ tail, last⟩ }
      { cursor := ⟨none, ts ++ us, last'⟩ } := by
    refine ⟨⟨[], ts, ?_⟩, [], rfl, rfl, nofun⟩
    constructor
    · rfl
    · rw [hsame fun _ => rfl]
    · rfl
    · rfl
    · exact Nat.le_refl _
    · exact fun h => absurd h (Nat.lt_irrefl _)
    · exact fun _ => ⟨rfl, rfl⟩
    · rintro w hw
      obtain rfl := Option.some.inj hw
      exact ⟨rfl, rfl, fun h => absurd h (Nat.lt_irrefl _)⟩
  rcases Seam.passes_agree (S := S) (Seam.never_cancelled hcancel) (fun _ _ => rfl) h hq with
    (⟨-, hlt⟩ | ⟨-, -, d, hd, hstart⟩) | ⟨r', hr', ⟨done, rest, hat⟩, new, hnew, hnew', -⟩
  · exact absurd hle (Nat.not_le.mpr hlt)
  · exact absurd hstart (hfault d hd)
  · obtain ⟨hts, hdepth, -⟩ := hat.place ts rfl
    have hrest' := hat.rest_eq'
    rw [hsame fun _ => rfl] at hrest' hnew'
    rw [hsame Stmt.mapSpans_id] at hr'
    exact ⟨r', done, rest, hr', hnew'.trans hnew.symm, hrest', hat.last_eq', hat.rest_eq, hts, hdepth⟩

/-- Rounds over the first part of a stream, before other tokens that leave them alone. -/
theorem parseRest_replace (hcancel : cfg.cancel = false) {tail : List Token}
    (h : Passes cfg { cursor := ⟨none, ts ++ tail, last⟩ } ss r) (hrest : r.cursor.rest = tail)
    (hl : last.kind = .eof) (hl' : last'.kind = .eof)
    (hcut : Cut ts (tail.headD last) (us.headD last'))
    (hfault : ∀ d ∈ r.diagnostics, d.span.start ≠ (tail.headD last).span.start) :
    parseRest cfg (ts ++ us) last' =
      (ss ++ (parseRest cfg us last').1, r.diagnostics ++ (parseRest cfg us last').2) := by
  obtain ⟨r', done, rest, hr', hdiagnostics, hrest', hlast', hr, -, -⟩ :=
    passes_joint hcancel h hl hl' hcut (Nat.le_of_eq (congrArg List.length hrest.symm)) hfault
  obtain rfl : rest = [] := List.append_left_eq_self.mp (hr.symm.trans hrest)
  have hloop := hr'.streamLoop_eq hcancel hl'
  obtain ⟨hbody, hfaults⟩ := streamLoop_eq hcancel (q := r') (by rw [hlast', hl'])
  rw [hrest', hlast', List.nil_append] at hbody hfaults
  rw [hbody] at hloop
  rw [hdiagnostics] at hfaults
  rw [parseRest, hloop, ← hfaults]

/-- Without a fault at its end, the first part of a stream is parsed as it is on its own. -/
theorem parseRest_append (hcancel : cfg.cancel = false) (hl : last.kind = .eof)
    (hl' : last'.kind = .eof) (hcut : Cut ts last (us.headD last'))
    (hfault : ∀ d ∈ (parseRest cfg ts last).2, d.span.start ≠ last.span.start) :
    parseRest cfg (ts ++ us) last' = ((parseRest cfg ts last).1 ++ (parseRest cfg us last').1,
      (parseRest cfg ts last).2 ++ (parseRest cfg us last').2) := by
  obtain ⟨hpass, heof⟩ := passes_streamLoop (q := { cursor := ⟨none, ts, last⟩ }) hcancel hl
  have hpass' : Passes cfg { cursor := ⟨none, ts ++ [], last⟩ } (parseRest cfg ts last).1
      (streamLoop cfg { cursor := ⟨none, ts, last⟩ }).2 := by
    rwa [List.append_nil]
  refine parseRest_replace hcancel hpass' ?_ hl hl' hcut hfault
  obtain ⟨-, done, rest, -, -, -, -, hr, hts, -⟩ :=
    passes_joint hcancel hpass' hl hl' hcut (Nat.zero_le _) hfault
  rw [List.append_nil] at hr
  -- at the end of the stream nothing of it is left, since it has no end mark inside
  rw [Cursor.kind, Cursor.current, hr] at heof
  cases rest with
  | nil => exact hr
  | cons t rest =>
    have hlined := hcut.lined
    rw [hts] at hlined
    exact absurd heof hlined.right.1

section Clamp

variable {a b : Offset}

theorem relocate_clamp_tokens (h : ∀ t ∈ ts, t.span.Inside a b) :
    relocate (Offset.clamp a b) ts = ts := by
  refine (List.map_congr_left fun t ht => ?_).trans (List.map_id ts)
  change Token.mk _ _ _ = _
  rw [(h t ht).relocate_clamp]
  rfl

/-- Positions of what the loop reads and finds are those of its tokens, so they stay where they are
when positions further away are moved. -/
theorem streamLoop_clamp (cfg : Config) (q : Progress) (hl : q.cursor.last.kind = .eof) (hab : a ≤ b)
    (hlast : q.cursor.last.span.Inside a b) (hts : ∀ t ∈ q.cursor.rest, t.span.Inside a b) :
    ∃ new, (streamLoop cfg q).2.diagnostics = q.diagnostics ++ new ∧
      relocate (Offset.clamp a b) (streamLoop cfg q).1 = (streamLoop cfg q).1 ∧
      relocate (Offset.clamp a b) new = new := by
  have hmark : q.cursor.last = relocate (Offset.clamp a b) q.cursor.last := by
    rw [← List.singleton_inj]
    exact (relocate_clamp_tokens (by simpa using hlast)).symm
  obtain ⟨new, hnew, hbody, hdiagnostics, -⟩ := streamLoop_moved cfg (f := Offset.clamp a b)
    (map_max_of_monotone fun _ _ => Offset.clamp_le_clamp hab) q q (fun _ => rfl)
    (relocate_clamp_tokens hts).symm hmark hl
  exact ⟨new, hnew, hbody.symm, List.append_cancel_left (hdiagnostics.symm.trans hnew)⟩

/-- Where the statements that the loop reads stand, and the faults that it finds. -/
theorem streamLoop_inside (cfg : Config) (q : Progress) (hl : q.cursor.last.kind = .eof) (hab : a ≤ b)
    (hlast : q.cursor.last.span.Inside a b) (hts : ∀ t ∈ q.cursor.rest, t.span.Inside a b) :
    ∃ new, (streamLoop cfg q).2.diagnostics = q.diagnostics ++ new ∧
      (∀ s ∈ (streamLoop cfg q).1, s.span.Inside a b) ∧ ∀ d ∈ new, d.span.Inside a b := by
  obtain ⟨new, hnew, hbody, hfaults⟩ := streamLoop_clamp cfg q hl hab hlast hts
  have hfix {α : Type} [Relocate α] {as : List α} (h : relocate (Offset.clamp a b) as = as) :
      ∀ x ∈ as, relocate (Offset.clamp a b) x = x :=
    List.map_inj_left.mp (h.trans (List.map_id as).symm)
  refine ⟨new, hnew, fun s hs => ?_, fun d hd => ?_⟩
  · apply Span.inside_of_relocate_clamp hab
    rw [← Stmt.span_relocate, hfix hbody s hs]
  · apply Span.inside_of_relocate_clamp hab
    exact congrArg Diagnostic.span (hfix hfaults d hd)

theorem parseRest_inside (cfg : Config) (hl : last.kind = .eof) (hab : a ≤ b)
    (hlast : last.span.Inside a b) (hts : ∀ t ∈ ts, t.span.Inside a b) :
    (∀ s ∈ (parseRest cfg ts last).1, s.span.Inside a b) ∧
      ∀ d ∈ (parseRest cfg ts last).2, d.span.Inside a b := by
  obtain ⟨new, hnew, hbody, hfaults⟩ := streamLoop_inside cfg { cursor := ⟨none, ts, last⟩ } hl hab hlast hts
  refine ⟨hbody, ?_⟩
  rw [parseRest, hnew]
  exact hfaults

/-- Moving all tokens of a stream moves its statements and faults. -/
theorem parseRest_moved (cfg : Config) (hl : last.kind = .eof) (hab : a ≤ b)
    (hlast : last.span.Inside a b) (hts : ∀ t ∈ ts, t.span.Inside a b)
    (hf : ∀ x y, a ≤ x → x ≤ y → y ≤ b → f x ≤ f y) :
    parseRest cfg (relocate f ts) (relocate f last) = relocate f (parseRest cfg ts last) := by
  -- outside the stream's positions the move does not matter, so there it may stand still
  let g := f ∘ Offset.clamp a b
  have hg : ∀ x y, x ≤ y → g x ≤ g y := fun x y h =>
    hf _ _ (Offset.clamp_inside hab x).1 (Offset.clamp_le_clamp hab h) (Offset.clamp_inside hab y).2
  have htoken {t : Token} (ht : t.span.Inside a b) : relocate f t = relocate g t := by
    have hspan : relocate g t.span = relocate f (relocate (Offset.clamp a b) t.span) := rfl
    rw [ht.relocate_clamp] at hspan
    exact congrArg (Token.mk t.kind t.text) hspan.symm
  have hlist {α : Type} [Relocate α] {as : List α} (h : relocate (Offset.clamp a b) as = as)
      (hcomp : ∀ x : α, relocate g x = relocate f (relocate (Offset.clamp a b) x)) :
      relocate g as = relocate f as := by
    calc relocate g as = relocate f (relocate (Offset.clamp a b) as) := by
          rw [Relocate.relocate]
          exact (List.map_congr_left fun x _ => hcomp x).trans List.map_map.symm
      _ = relocate f as := by rw [h]
  obtain ⟨new, hnew, hclamp, hclamp'⟩ :=
    streamLoop_clamp cfg { cursor := ⟨none, ts, last⟩ } hl hab hlast hts
  obtain ⟨new', hnew', hbody, hdiagnostics, -⟩ := streamLoop_moved cfg (map_max_of_monotone hg)
    { cursor := ⟨none, ts, last⟩ } { cursor := ⟨none, relocate f ts, relocate f last⟩ } (fun _ => rfl)
    (List.map_congr_left fun t ht => htoken (hts t ht)) (htoken hlast) hl
  obtain rfl : new' = new := hnew'.symm.trans hnew
  refine Prod.ext ?_ ?_
  · rw [parseRest, hbody]
    exact hlist hclamp fun s =>
      (Stmt.mapSpans_mapSpans (relocate (Offset.clamp a b)) (relocate f) s).symm
  · rw [parseRest, hdiagnostics, parseRest, hnew]
    exact hlist hclamp' fun _ => rfl

end Clamp

end Offside
