import Offside.Document
import Offside.Proofs.Diagnostic.Order
import Offside.Proofs.Scan.Extent
import Offside.Proofs.Scan.Flush
import Offside.Proofs.Seam.Parse

namespace Offside

namespace Scan

variable {cfg : Config} {e : Emission} {t : State} {A B : String}

/-- The scan of a text ends where a logical line could start. -/
def EndsLine (cfg : Config) (source : String) : Prop :=
  ∃ e t, Reaches cfg [] (.start source) e t ∧ t.rest = [] ∧ t.atLineStart = true

theorem scan_of_reaches {source : String} (h : Reaches cfg [] (.start source) e t)
    (hr : t.rest = []) : scan cfg source = ⟨e ++ (finish t ++ endMark t.pos), none⟩ := by
  rw [scan, h.run_eq, run_of_done (step_end hr)]
  rfl

theorem Reaches.pos_eq {source : String} (h : Reaches cfg [] (.start source) e t)
    (hr : t.rest = []) : t.pos = Text.byteSize source.toList := by
  have hlimit := h.covers.limit_eq
  rw [State.limit, State.limit, hr] at hlimit
  simpa [State.start] using hlimit

/-- The second text is scanned as if it stood alone. -/
theorem scan_append (h : Reaches cfg [] (.start A) e t) (hr : t.rest = [])
    (hl : t.atLineStart = true) (hB : StartsFlush B.toList) : ∃ r : Result,
      scan cfg B = r.after (flush (.start B)) ∧ scan cfg (A ++ B) =
        (relocate (fun o => Offset.shift o (Text.byteSize A.toList)) r).after (e ++ flush t) := by
  have hsound := (h.leads (State.sound_start A)).sound
  have hAB : Reaches cfg [] (.start (A ++ B)) e (t.before B.toList) := by
    have happend : Reaches cfg [] ((State.start A).before ((State.start A).rest ++ B.toList)) e
        (t.before B.toList) := h.lineStart_append hl (List.append_nil _).symm hr
    have hstart : (State.start A).before ((State.start A).rest ++ B.toList) = .start (A ++ B) := by
      rw [State.start, State.start, String.toList_append]
      rfl
    rwa [hstart] at happend
  have hflush : step cfg [] (t.before B.toList) = .next (flush t) (t.before B.toList).flushed :=
    step_flush ⟨hsound.levels, hsound.lineStart, hsound.openers⟩ hl hB List.not_mem_nil
  have hflushB : step cfg [] (.start B) = .next (flush (.start B)) (State.start B).flushed :=
    step_flush (State.sound_start B) rfl hB List.not_mem_nil
  have hmoved : Moved (fun o => Offset.shift o (Text.byteSize A.toList)) (State.start B).flushed
      (t.before B.toList).flushed :=
    { pos := fun i => by
        refine (Offset.shift_ofNat ?_).symm
        change ((t.pos + i : Nat) : Int) = ((0 + i : Nat) : Int) + _
        rw [h.pos_eq hr]
        push_cast
        omega
      rest := rfl
      levels := rfl
      openers := hsound.openers_eq hl
      atLineStart := rfl
      hasContent := hsound.lineStart hl
      resyncing := rfl }
  refine ⟨run cfg [] (State.start B).flushed, ?_, ?_⟩
  · rw [scan, run_of_next hflushB]
  · rw [scan, (Reaches.tail hAB hflush).run_eq, run_moved hmoved]

/-- What a whole scan puts out stands in the text. -/
theorem scan_between (cfg : Config) (source : String) :
    (scan cfg source).toEmission.Between 0 (Text.byteSize source.toList) := by
  obtain ⟨e, t, h, hr, hrun⟩ := exists_end cfg (.start source)
  rw [scan, hrun, ← h.pos_eq hr]
  exact h.covers.between.append
    (h.covers.finish (Nat.zero_le _) fun o ho => absurd ho List.not_mem_nil)

/-- A scan outside blocks does not begin with the end of one. -/
theorem Reaches.first_ne_dedent {stops : List Offset} {s : State} (h : Reaches cfg stops s e t)
    (hs : s.Sound) (hd : s.depth = {}) :
    ∀ x, (e.tokens ++ (finish t).tokens).head? = some x → x.kind ≠ .dedent := by
  intro x hx hk
  have hleads := h.leads hs
  have horderly := hleads.orderly _ (finish_orderly hleads.sound)
  obtain ⟨ts, hts⟩ := List.head?_eq_some_iff.mp hx
  rw [hts, hd] at horderly
  exact absurd (horderly.2.1 hk).2 (Nat.lt_irrefl _)

/-- The tokens of a whole scan are in order, and no line ends before the first of them. -/
theorem whole_tokens (h : Reaches cfg [] (.start A) e t) :
    Orderly {} (e.tokens ++ (finish t).tokens) ∧
      ∀ x, (e.tokens ++ (finish t).tokens).head? = some x → x.kind ≠ .newline ∧ x.kind ≠ .dedent := by
  have hleads := h.leads (State.sound_start A)
  have horderly : Orderly {} (e.tokens ++ (finish t).tokens) :=
    hleads.orderly _ (finish_orderly hleads.sound)
  refine ⟨horderly, fun x hx => ⟨?_, ?_⟩⟩
  · have hopens := h.opens rfl
    cases hts : e.tokens with
    | nil =>
      rw [hts, finish, hopens.silent hts] at hx
      rw [List.eq_of_mem_replicate (List.mem_of_head? hx), Token.layout]
      exact Kind.noConfusion
    | cons y ts =>
      rw [hts] at hx
      exact hopens.first x (by rw [hts]; exact hx)
  · exact h.first_ne_dedent (State.sound_start A) rfl x hx

end Scan

namespace Document

open Scan

variable {cfg : Config} {A B : String}

theorem parse_eq {source : String} (hcancel : cfg.cancel = false) {ts : List Token} {last : Token}
    (hl : last.kind = .eof) (h : (scan cfg source).tokens = ts ++ [last]) :
    parse cfg source = ofPart source
      { body := (parseRest cfg ts last).1
        diagnostics := Diagnostic.sort ((scan cfg source).diagnostics ++ (parseRest cfg ts last).2)
        comments := (scan cfg source).comments
        lineStates := (scan cfg source).lineStates } false := by
  rw [parse, h, Offside.parse_eq hcancel hl]
  rfl

theorem parse_empty (hcancel : cfg.cancel = false) :
    (parse cfg "").body = [] ∧ (parse cfg "").diagnostics = [] ∧ (parse cfg "").comments = [] := by
  have hscan : scan cfg "" = ⟨endMark 0, none⟩ := scan_of_reaches .refl rfl
  have htokens : (scan cfg "").tokens = [] ++ [.layout .eof (Span.ofNat 0 0)] := by
    rw [hscan]
    rfl
  rw [parse_eq hcancel rfl htokens, hscan, parseRest_nil rfl]
  exact ⟨rfl, by simp [ofPart, endMark, Diagnostic.sort], rfl⟩

/-- Where the tokens of a text stand, and the faults found in it. -/
theorem inside_text (cfg : Config) {source : String}
    (hsize : Text.byteSize source.toList < UInt32.size) {ts : List Token} {last : Token}
    (hl : last.kind = .eof) (h : (scan cfg source).tokens = ts ++ [last]) :
    (∀ x ∈ ts, x.span.Inside 0 (UInt32.ofNat (Text.byteSize source.toList))) ∧
      last.span.Inside 0 (UInt32.ofNat (Text.byteSize source.toList)) ∧
      ∀ d ∈ (scan cfg source).diagnostics ++ (parseRest cfg ts last).2,
        d.span.Inside 0 (UInt32.ofNat (Text.byteSize source.toList)) := by
  have hbetween := scan_between cfg source
  have htokens : ∀ x ∈ ts ++ [last],
      x.span.Inside 0 (UInt32.ofNat (Text.byteSize source.toList)) := by
    rw [← h]
    exact fun x hx => (hbetween.tokens x hx).inside hsize
  obtain ⟨hts, hlast⟩ := List.forall_mem_append.mp htokens
  have hlast := hlast last (List.mem_singleton.mpr rfl)
  refine ⟨hts, hlast, List.forall_mem_append.mpr ⟨?_, ?_⟩⟩
  · exact fun d hd => (hbetween.diagnostics d hd).inside hsize
  · exact (parseRest_inside cfg hl UInt32.zero_le hlast hts).2

section Parts

variable {a b : Offset} {f : Offset → Offset}

/-- The second of two streams, moved, is parsed behind the first as if it stood alone. -/
theorem parseRest_append_moved (hcancel : cfg.cancel = false) (hab : a ≤ b)
    (hf : ∀ x y, a ≤ x → x ≤ y → y ≤ b → f x ≤ f y)
    {ts us : List Token} {last last' : Token} (hl : last.kind = .eof) (hl' : last'.kind = .eof)
    (hcut : Cut ts last (us.headD last')) (hlast : last'.span.Inside a b)
    (hus : ∀ t ∈ us, t.span.Inside a b)
    (hfault : ∀ d ∈ (parseRest cfg ts last).2, d.span.start ≠ last.span.start) :
    parseRest cfg (ts ++ relocate f us) (relocate f last') =
      ((parseRest cfg ts last).1 ++ relocate f (parseRest cfg us last').1,
        (parseRest cfg ts last).2 ++ relocate f (parseRest cfg us last').2) := by
  have hmoved : Cut ts last ((relocate f us).headD (relocate f last')) :=
    { hcut with
      right := by
        have hright := hcut.right
        cases us <;> exact hright }
  have hmark : (relocate f last').kind = .eof := hl'
  rw [parseRest_append hcancel hl hmark hmoved hfault, parseRest_moved cfg hl' hab hlast hus hf]
  rfl

/-- Faults that stand before some others keep to the front when those are moved behind them. -/
theorem sort_append_moved
    (hf : ∀ x y, a ≤ x → x ≤ b → a ≤ y → y ≤ b → (x ≤ y ↔ f x ≤ f y))
    {xs ys xs' ys' : List Diagnostic}
    (hxs : ∀ d ∈ xs, d.span.start < f a) (hxs' : ∀ d ∈ xs', d.span.start < f a)
    (hys : ∀ d ∈ ys, d.span.Inside a b) (hys' : ∀ d ∈ ys', d.span.Inside a b) :
    Diagnostic.sort ((xs ++ relocate f ys) ++ (xs' ++ relocate f ys')) =
      Diagnostic.sort (xs ++ xs') ++ relocate f (Diagnostic.sort (ys ++ ys')) := by
  have hbehind {ds : List Diagnostic} (h : ∀ d ∈ ds, d.span.Inside a b) :
      ∀ d ∈ relocate f ds, f a ≤ d.span.start := by
    refine List.forall_mem_map.mpr fun d hd => ?_
    obtain ⟨hle, hge⟩ := (h d hd).1
    exact (hf a _ (UInt32.le_refl a) (UInt32.le_trans hle hge) hle hge).mp hle
  have hall : ∀ d ∈ ys ++ ys', d.span.Inside a b := List.forall_mem_append.mpr ⟨hys, hys'⟩
  rw [Diagnostic.sort_parts hxs hxs' (hbehind hys) (hbehind hys'), ← relocate_append,
    Diagnostic.sort_relocate fun x hx y hy =>
      hf _ _ (hall x hx).1.1 (hall x hx).1.2 (hall y hy).1.1 (hall y hy).1.2]

variable {n : Nat}

theorem shift_zero (n : Nat) : Offset.shift 0 (n : Int) = UInt32.ofNat n :=
  Offset.shift_ofNat (m := 0) (by push_cast; omega)

/-- A move by the length of a text keeps the order of the positions of another one. -/
theorem shift_le_shift (hb : b.toNat + n < UInt32.size) (x y : Offset) (hx : x ≤ b) (hy : y ≤ b) :
    x ≤ y ↔ Offset.shift x n ≤ Offset.shift y n :=
  (Offset.shift_le_shift_iff (a := 0) (b := b) (by simp) (by exact_mod_cast hb)
    ⟨UInt32.zero_le, hx⟩ ⟨UInt32.zero_le, hy⟩).symm

end Parts

section Joined

variable {stops : List Offset} {s t : State} {e : Emission} {q : Result} {us : List Token} {last : Token}
  {a b : Offset} {f : Offset → Offset} {ds : List Diagnostic}

/-- What stands before the end mark of a run up to a line start. -/
def tokensTo (e : Emission) (t : State) : List Token := e.tokens ++ (flush t).tokens

def markAt (t : State) : Token := .layout .eof (Span.ofNat t.pos t.pos)

/-- What a run puts out behind a line start is parsed as if it stood alone, moved, unless a fault of
what comes before stands there. -/
theorem parse_joined (hcancel : cfg.cancel = false) (h : Reaches cfg stops s e t) (hs : s.Sound)
    (hd : s.depth = {}) (hc : s.hasContent = false) (hl : t.atLineStart = true)
    (htokens : q.tokens = us ++ [last]) (hlast : last.kind = .eof)
    (hfresh : (us.headD last).kind.startsAfresh = true) (hab : a ≤ b)
    (hf : ∀ x y, a ≤ x → x ≤ b → a ≤ y → y ≤ b → (x ≤ y ↔ f x ≤ f y)) (ha : f a = UInt32.ofNat t.pos)
    (htoken : ∀ x ∈ q.tokens, x.span.Inside a b) (hscan : ∀ d ∈ q.diagnostics, d.span.Inside a b)
    (hfault : ∀ d ∈ ds ++ (parseRest cfg (tokensTo e t) (markAt t)).2, d.span.start < UInt32.ofNat t.pos) :
    (Grammar.parse cfg ((relocate f q).after (e ++ flush t)).tokens).body =
        (parseRest cfg (tokensTo e t) (markAt t)).1 ++ relocate f (Grammar.parse cfg q.tokens).body ∧
      Diagnostic.sort ((ds ++ relocate f q.diagnostics) ++
          (Grammar.parse cfg ((relocate f q).after (e ++ flush t)).tokens).diagnostics) =
        Diagnostic.sort (ds ++ (parseRest cfg (tokensTo e t) (markAt t)).2) ++
          relocate f (Diagnostic.sort (q.diagnostics ++ (Grammar.parse cfg q.tokens).diagnostics)) := by
  rw [htokens] at htoken
  obtain ⟨hinside, hmark⟩ := List.forall_mem_append.mp htoken
  have hmark := hmark last (List.mem_singleton_self last)
  have hwhole : ((relocate f q).after (e ++ flush t)).tokens =
      (tokensTo e t ++ relocate f us) ++ [relocate f last] := by
    change tokensTo e t ++ relocate f q.tokens = _
    rw [htokens, relocate_append, List.append_assoc]
    rfl
  have hmoved : (relocate f last).kind = .eof := hlast
  obtain ⟨hds, hparsed⟩ := List.forall_mem_append.mp hfault
  have hcut : Cut (tokensTo e t) (markAt t) (us.headD last) := cut_flush h hs hd hc hl rfl hfresh
  have hjoint := parseRest_append_moved hcancel hab
    (fun x y hx hxy hy => (hf x y hx (UInt32.le_trans hxy hy) (UInt32.le_trans hx hxy) hy).mp hxy)
    rfl hlast hcut hmark hinside fun d hd => UInt32.ne_of_lt (hparsed d hd)
  have hrest := (parseRest_inside cfg hlast hab hmark hinside).2
  rw [hwhole, htokens, Offside.parse_eq hcancel hmoved, Offside.parse_eq hcancel hlast, hjoint]
  exact ⟨rfl, sort_append_moved hf (ha.symm ▸ hds) (ha.symm ▸ hparsed) hscan hrest⟩

end Joined

theorem startsFlush_of_head {cs : List Char} (hne : cs ≠ [])
    (hblank : ∀ c ∈ cs.head?, c ∉ [' ', '\t', '\x0c', '\r', '\n', '#']) : StartsFlush cs := by
  obtain ⟨c, cs, rfl⟩ := List.exists_cons_of_ne_nil hne
  have hc := hblank c rfl
  refine ⟨c, cs, rfl, ?_, ?_, ?_⟩
  · simp only [List.mem_cons, List.not_mem_nil, not_or] at hc
    simp [Layout.isSpace, Layout.isIndent, hc]
  · rintro rfl
    simp at hc
  · rintro rfl
    simp at hc

/-- The first token of a text begins a statement there unless it is one of a few. -/
theorem startsAfresh_first {u : State} {last : Token} (hu : Reaches cfg [] (.start B) e u)
    (hlast : last.kind = .eof)
    (hfirst : ∀ t ∈ ((e.tokens ++ (finish u).tokens) ++ [last]).head?,
      t.kind ∉ [Kind.indent, .kwElif, .kwElse]) :
    ((e.tokens ++ (finish u).tokens).headD last).kind.startsAfresh = true := by
  obtain ⟨-, hhead⟩ := whole_tokens hu
  generalize e.tokens ++ (finish u).tokens = ts at *
  cases ts with
  | nil =>
    rw [List.headD_nil, hlast]
    rfl
  | cons x xs =>
    have hx := hfirst x rfl
    obtain ⟨hnewline, hdedent⟩ := hhead x rfl
    simp only [List.mem_cons, List.not_mem_nil, or_false, not_or] at hx
    exact Kind.startsAfresh_iff.mpr ⟨hnewline, hx.1, hdedent, hx.2⟩

/-- A text that ends where a line could start, without a fault there, has the same statements,
faults and comments before another text that begins a statement, and that one has its own behind
them, moved by the length of the first. -/
theorem parse_append (hcancel : cfg.cancel = false)
    (hsize : Text.byteSize (A ++ B).toList < UInt32.size) (hline : EndsLine cfg A)
    (hfault : ∀ d ∈ (parse cfg A).diagnostics,
      d.span.start ≠ UInt32.ofNat (Text.byteSize A.toList))
    (hblank : ∀ c ∈ B.toList.head?, c ∉ [' ', '\t', '\x0c', '\r', '\n', '#'])
    (hfirst : ∀ t ∈ (scan cfg B).tokens.head?, t.kind ∉ [Kind.indent, .kwElif, .kwElse]) :
    (parse cfg (A ++ B)).body = (parse cfg A).body ++
        (parse cfg B).body.map (fun s => s.shift (Text.byteSize A.toList)) ∧
      (parse cfg (A ++ B)).diagnostics = (parse cfg A).diagnostics ++
        (parse cfg B).diagnostics.map (fun d => d.shift (Text.byteSize A.toList)) ∧
      (parse cfg (A ++ B)).comments = (parse cfg A).comments ++
        (parse cfg B).comments.map (fun t => t.shift (Text.byteSize A.toList)) := by
  by_cases hempty : B.toList = []
  · obtain rfl : B = "" := String.toList_eq_nil_iff.mp hempty
    obtain ⟨hbody, hdiagnostics, hcomments⟩ := parse_empty hcancel
    rw [String.append_empty, hbody, hdiagnostics, hcomments]
    simp
  obtain ⟨e, t, h, hr, hl⟩ := hline
  obtain ⟨q, hB, hAB⟩ := scan_append h hr hl (startsFlush_of_head hempty hblank)
  obtain ⟨eB, u, hu, hur, -⟩ := exists_end cfg (.start B)
  have hsum : Text.byteSize A.toList + Text.byteSize B.toList < UInt32.size := by
    rwa [String.toList_append, Text.byteSize_append] at hsize
  have hpos := h.pos_eq hr
  -- behind a line start a scan puts out the dedents that close the blocks, and nothing else
  have hscanA := scan_of_reaches h hr
  rw [finish_lineStart (h.leads (State.sound_start A)).sound hl] at hscanA
  have htokensA : (scan cfg A).tokens = tokensTo e t ++ [markAt t] := by
    rw [hscanA]
    exact (List.append_assoc _ _ _).symm
  have hparseA := parse_eq hcancel rfl htokensA
  obtain ⟨-, -, hinsideA⟩ := inside_text cfg (by omega) rfl htokensA
  have hlt : ∀ d ∈ (scan cfg A).diagnostics ++ (parseRest cfg (tokensTo e t) (markAt t)).2,
      d.span.start < UInt32.ofNat t.pos := by
    intro d hd
    rw [hpos]
    refine UInt32.lt_of_le_of_ne (hinsideA d hd).1.2 (hfault d ?_)
    rw [hparseA]
    exact Diagnostic.mem_sort.mpr hd
  have htokensB : (scan cfg B).tokens = (eB.tokens ++ (finish u).tokens) ++ [markAt u] := by
    rw [scan_of_reaches hu hur]
    exact (List.append_assoc _ _ _).symm
  have hmark : (markAt u).kind = .eof := rfl
  have hfresh := startsAfresh_first hu hmark (htokensB ▸ hfirst)
  have hbetween := scan_between cfg B
  have hlen : Text.byteSize B.toList < UInt32.size := by omega
  have hb : (UInt32.ofNat (Text.byteSize B.toList)).toNat + Text.byteSize A.toList < UInt32.size := by
    rw [Offset.toNat_ofNat hlen]
    omega
  have htokens : q.tokens = (scan cfg B).tokens := by rw [hB]; rfl
  have hdiagnostics : q.diagnostics = (scan cfg B).diagnostics := by rw [hB]; rfl
  have hcomments : q.comments = (scan cfg B).comments := by rw [hB]; rfl
  obtain ⟨hbody, hsort⟩ := parse_joined (f := fun o => Offset.shift o (Text.byteSize A.toList)) hcancel h
    (State.sound_start A) rfl rfl hl (htokens.trans htokensB) hmark hfresh UInt32.zero_le
    (fun x y _ hx _ hy => shift_le_shift hb x y hx hy) (hpos ▸ shift_zero _)
    (fun x hx => (hbetween.tokens x (htokens ▸ hx)).inside hlen)
    (fun d hd => (hbetween.diagnostics d (hdiagnostics ▸ hd)).inside hlen) hlt
  rw [htokens] at hbody
  rw [hdiagnostics, htokens] at hsort
  rw [parse, hAB, hparseA]
  refine ⟨hbody, Eq.trans (congrArg (fun ds => Diagnostic.sort (ds ++ _)) ?_) hsort, ?_⟩
  · rw [← hdiagnostics, hscanA]
    simp [Result.after, flush, endMark, relocate]
  · change ((relocate _ q).after (e ++ flush t)).comments = (scan cfg A).comments ++
      relocate (fun o => Offset.shift o (Text.byteSize A.toList)) (scan cfg B).comments
    rw [← hcomments, hscanA]
    simp [Result.after, flush, endMark, relocate]

/-- A block that ends with a broken statement does not disturb the statement behind it. -/
theorem parse_append_broken :
    (parse {} ("if x:\n  y =\n" ++ "z\n")).body = (parse {} "if x:\n  y =\n").body ++
        (parse {} "z\n").body.map (fun s => s.shift 12) ∧
      (parse {} ("if x:\n  y =\n" ++ "z\n")).diagnostics = (parse {} "if x:\n  y =\n").diagnostics ++
        (parse {} "z\n").diagnostics.map (fun d => d.shift 12) ∧
      (parse {} ("if x:\n  y =\n" ++ "z\n")).comments = (parse {} "if x:\n  y =\n").comments ++
        (parse {} "z\n").comments.map (fun t => t.shift 12) := by
  have hline : EndsLine {} "if x:\n  y =\n" :=
    ⟨_, _, .tail (.tail (.tail (.tail (.tail (.tail (.tail (.tail (.tail (.tail (.tail .refl
      rfl) rfl) rfl) rfl) rfl) rfl) rfl) rfl) rfl) rfl) rfl, rfl, rfl⟩
  refine parse_append rfl (by decide +kernel) hline (by decide +kernel) ?_ (by decide +kernel)
  intro c hc
  obtain rfl : 'z' = c := Option.some.inj hc
  decide

end Document

end Offside
