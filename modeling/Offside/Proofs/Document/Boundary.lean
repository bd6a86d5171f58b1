import Offside.Document.Edit
import Offside.Proofs.Document.Append
import Offside.Proofs.Scan.Token
import Offside.Proofs.Seam.Joint

namespace Offside

open Scan

/-- An element of two lists that is not in the second one is in the first. -/
theorem mem_left_of_append_eq {α : Type} {ts us as bs : List α} {x : α}
    (h : ts ++ x :: us = as ++ bs) (hx : x ∉ bs) : ∃ vs, as = ts ++ x :: vs ∧ us = vs ++ bs := by
  rcases List.append_eq_append_iff.mp h with ⟨vs, has, hbs⟩ | ⟨vs, -, hbs⟩
  · cases vs with
    | nil =>
      rw [List.nil_append] at hbs
      exact absurd (hbs ▸ List.mem_cons_self) hx
    | cons v vs =>
      rw [List.cons_append] at hbs
      obtain ⟨rfl, hus⟩ := List.cons.inj hbs
      exact ⟨vs, has, hus⟩
  · exact absurd (hbs ▸ List.mem_append_right vs List.mem_cons_self) hx

namespace Scan

variable {cfg : Config} {s t : State} {e : Emission}

theorem finish_isLayout (t : State) : ∀ x ∈ (finish t).tokens, x.kind.isLayout = true := by
  refine List.forall_mem_append.mpr ⟨?_, fun x hx => ?_⟩
  · split
    · exact List.forall_mem_singleton.mpr rfl
    · exact List.forall_mem_nil _
  · rw [List.eq_of_mem_replicate hx]
    rfl

theorem State.levels_eq (h : s.Sound) (hd : s.depth = {}) : s.levels = [0] ∧ s.openers = [] := by
  have hbrackets := congrArg Depth.brackets hd
  have hblocks := congrArg Depth.blocks hd
  obtain ⟨inner, hlevels, -⟩ := h.levels
  simp only [State.depth] at hbrackets hblocks
  refine ⟨?_, List.eq_nil_of_length_eq_zero hbrackets⟩
  rw [hlevels, List.length_append, List.length_singleton, Nat.add_sub_cancel] at hblocks
  rw [hlevels, List.eq_nil_of_length_eq_zero hblocks, List.nil_append]

end Scan

namespace Document

/-- A place between two statements of a document: the scan before and behind the first token of the
second statement, and the joint of the parse there. -/
structure Boundary (cfg : Config) (source : String) (ss : List Stmt) where
  emitted : Emission
  state : State
  remaining : Emission
  final : State
  reaches : Reaches cfg [] (.start source) emitted state
  reaches_final : Reaches cfg [] state remaining final
  final_rest : final.rest = []
  joint : Joint cfg (.layout .eof (Span.ofNat final.pos final.pos)) ss
  before_eq : joint.before = emitted.tokens
  behind_eq : joint.first :: joint.behind = remaining.tokens ++ (finish final).tokens
  reads : state.ReadsToken joint.first.kind
  first_start : joint.first.span.start = UInt32.ofNat state.pos
  clean : ∀ d ∈ (parse cfg source).diagnostics, d.span.start ≠ UInt32.ofNat state.pos

variable {cfg : Config} {source : String} {ss rest : List Stmt} {s : Stmt}

/-- The tokens of a text, with where each of them is read. -/
theorem exists_boundary (hcancel : cfg.cancel = false)
    (hbody : (parse cfg source).body = ss ++ s :: rest)
    (hclean : ∀ d ∈ (parse cfg source).diagnostics, d.span.start ≠ s.span.start) :
    ∃ b : Boundary cfg source ss, b.joint.next = s ∧ s.span.start = UInt32.ofNat b.state.pos := by
  obtain ⟨e, u, h, hr, -⟩ := exists_end cfg (.start source)
  have hscan := scan_of_reaches h hr
  have hsound := (h.leads (State.sound_start source)).sound
  have htokens : (scan cfg source).tokens = (e.tokens ++ (finish u).tokens) ++
      [.layout .eof (Span.ofNat u.pos u.pos)] := by
    rw [hscan]
    exact (List.append_assoc _ _ _).symm
  have hparse := parse_eq hcancel rfl htokens
  have horderly := (whole_tokens h).1
  rw [hparse] at hbody
  obtain ⟨j, hstream, hnext⟩ := exists_joint hcancel rfl horderly.lined hbody
  have hstart := j.start_eq rfl
  rw [hnext] at hstart
  have hparsed : ∀ d ∈ (parseRest cfg j.stream (.layout .eof (Span.ofNat u.pos u.pos))).2,
      d.span.start ≠ j.first.span.start := by
    rw [hstream, ← hstart]
    intro d hd
    refine hclean d ?_
    rw [hparse]
    exact Diagnostic.mem_sort.mpr (List.mem_append_right _ hd)
  have hlayout : j.first.kind.isLayout = false := by
    have hfresh := (j.clean hcancel rfl hparsed).startsAfresh
    have heof := j.ne_eof
    revert hfresh heof
    cases j.first.kind <;> simp [Kind.startsAfresh, Kind.isLayout]
  -- the end of a text puts out layout only, so the token is read before it
  have hmem : j.first ∉ (finish u).tokens := fun hmem => by
    rw [finish_isLayout u _ hmem] at hlayout
    contradiction
  obtain ⟨us, hus, hbehind⟩ := mem_left_of_append_eq hstream hmem
  obtain ⟨e₁, y, e₂, h₁, h₂, rfl, hts, hus', hread, z, -, -, hspan⟩ := h.split_token hus hlayout
  have hfirst : j.first.span.start = UInt32.ofNat y.pos := by rw [hspan]; rfl
  refine ⟨⟨e₁, y, e₂, u, h₁, h₂, hr, j, hts.symm, ?_, hread, hfirst, ?_⟩, hnext, hstart.trans hfirst⟩
  · rw [hus', hbehind]
    rfl
  · rw [← hfirst, ← hstart]
    exact hclean

namespace Boundary

variable (b : Boundary cfg source ss)

def mark : Token := .layout .eof (Span.ofNat b.final.pos b.final.pos)

def parsed : List Stmt × List Diagnostic := parseRest cfg (b.joint.first :: b.joint.behind) b.mark

theorem run_eq : run cfg [] b.state = ⟨b.remaining ++ (finish b.final ++ endMark b.final.pos), none⟩ := by
  rw [b.reaches_final.run_eq, run_of_done (step_end b.final_rest)]
  rfl

theorem scan_eq : scan cfg source =
    ⟨b.emitted ++ (b.remaining ++ (finish b.final ++ endMark b.final.pos)), none⟩ := by
  rw [scan, b.reaches.run_eq, b.run_eq]
  rfl

theorem tokens_eq : (scan cfg source).tokens = b.joint.stream ++ [b.mark] := by
  rw [b.scan_eq, Joint.stream, b.before_eq, b.behind_eq]
  change b.emitted.tokens ++ (b.remaining.tokens ++ ((finish b.final).tokens ++ [b.mark])) = _
  simp only [List.append_assoc]

theorem sound : b.state.Sound := (b.reaches.leads (State.sound_start source)).sound

theorem pos_le : b.state.pos ≤ b.final.pos := b.reaches_final.covers.pos_le

theorem final_pos : b.final.pos = Text.byteSize source.toList :=
  (b.reaches.trans b.reaches_final).pos_eq b.final_rest

section

variable (hcancel : cfg.cancel = false)

include hcancel

/-- The document, with what comes before the boundary and what comes behind. -/
theorem parse_eq : parse cfg source = ofPart source
    { body := ss ++ b.parsed.1
      diagnostics := Diagnostic.sort
        ((b.emitted.diagnostics ++ (b.remaining.diagnostics ++ (finish b.final).diagnostics)) ++
          (b.joint.state.diagnostics ++ b.parsed.2))
      comments := b.emitted.comments ++ b.remaining.comments
      lineStates := b.emitted.lineStates ++ b.remaining.lineStates } false := by
  rw [Document.parse_eq hcancel rfl b.tokens_eq, mark, b.joint.parse_eq hcancel rfl, b.scan_eq]
  simp only [finish, endMark, Emission.append_diagnostics, Emission.append_comments,
    Emission.append_lineStates, List.append_nil]
  rfl

theorem parse_clean : ∀ d ∈ (parseRest cfg b.joint.stream b.mark).2,
    d.span.start ≠ b.joint.first.span.start := by
  intro d hd
  rw [b.first_start]
  refine b.clean d ?_
  rw [Document.parse_eq hcancel rfl b.tokens_eq]
  exact Diagnostic.mem_sort.mpr (List.mem_append_right _ hd)

theorem joint_clean : b.joint.Clean := b.joint.clean hcancel rfl (b.parse_clean hcancel)

/-- At a boundary no bracket and no block is open. -/
theorem levels_eq : b.state.levels = [0] ∧ b.state.openers = [] := by
  refine State.levels_eq b.sound ?_
  have hdepth := (b.reaches.leads (State.sound_start source)).depth
  have hstart : (State.start source).depth = {} := rfl
  rw [hstart, ← b.before_eq, (b.joint_clean hcancel).along_before hcancel rfl] at hdepth
  exact hdepth.symm

/-- Where all dedents before the boundary match a level, the scan looks for none there. -/
theorem resyncing_eq
    (hmatched : ∀ d ∈ (parse cfg source).diagnostics, ∀ w, d.cause ≠ .inconsistentDedent w) :
    b.state.resyncing = false := by
  refine b.reaches.resyncing rfl fun d hd => hmatched d ?_
  rw [b.parse_eq hcancel]
  exact Diagnostic.mem_sort.mpr (List.mem_append_left _ (List.mem_append_left _ hd))

variable (hsize : Text.byteSize source.toList < UInt32.size)

include hsize

omit hcancel in
theorem pos_lt : b.state.pos < UInt32.size := by
  have := b.pos_le
  rw [b.final_pos] at this
  omega

/-- Faults of what comes before the boundary stand before it. -/
theorem faults_lt : ∀ d ∈ b.emitted.diagnostics ++ b.joint.state.diagnostics,
    d.span.start < UInt32.ofNat b.state.pos := by
  have hbetween := b.reaches.covers.between
  have hpos := b.pos_lt hsize
  let last : Token := .layout .eof (Span.ofNat b.state.pos b.state.pos)
  have hlast : last.span.Inside (UInt32.ofNat 0) (UInt32.ofNat b.state.pos) :=
    (Span.between_point (Nat.zero_le _) (Nat.le_refl _)).inside hpos
  have hbefore : parseRest cfg b.joint.before last = (ss, b.joint.state.diagnostics) :=
    (b.joint_clean hcancel).before_eq hcancel rfl rfl
  have hinside := (parseRest_inside cfg rfl UInt32.zero_le hlast
    fun t ht => (hbetween.tokens t (b.before_eq ▸ ht)).inside hpos).2
  rw [hbefore] at hinside
  have hle : ∀ d ∈ b.emitted.diagnostics ++ b.joint.state.diagnostics,
      d.span.start ≤ UInt32.ofNat b.state.pos := List.forall_mem_append.mpr
    ⟨fun d hd => ((hbetween.diagnostics d hd).inside hpos).1.2, fun d hd => (hinside d hd).1.2⟩
  refine fun d hd => UInt32.lt_of_le_of_ne (hle d hd) (b.clean d ?_)
  rw [b.parse_eq hcancel]
  refine Diagnostic.mem_sort.mpr ?_
  rcases List.mem_append.mp hd with hd | hd
  · exact List.mem_append_left _ (List.mem_append_left _ hd)
  · exact List.mem_append_right _ (List.mem_append_left _ hd)

omit hsize in
/-- What the scan puts out behind the boundary stands behind it. -/
theorem remaining_between : (b.remaining ++ (finish b.final ++ endMark b.final.pos)).Between
    b.state.pos b.final.pos := by
  have hcovers := b.reaches_final.covers
  refine hcovers.between.append (hcovers.finish (Nat.le_refl _) fun o ho => ?_)
  rw [(b.levels_eq hcancel).2] at ho
  exact absurd ho List.not_mem_nil

theorem behind_inside : ∀ t ∈ b.joint.first :: b.joint.behind,
    t.span.Inside (UInt32.ofNat b.state.pos) (UInt32.ofNat b.final.pos) := by
  rw [b.behind_eq]
  intro t ht
  refine ((b.remaining_between hcancel).tokens t ?_).inside (b.final_pos ▸ hsize)
  change t ∈ b.remaining.tokens ++ ((finish b.final).tokens ++ [_])
  rw [← List.append_assoc]
  exact List.mem_append_left _ ht

/-- Faults of what comes behind the boundary stand behind it. -/
theorem faults_inside :
    ∀ d ∈ (b.remaining.diagnostics ++ (finish b.final).diagnostics) ++ b.parsed.2,
      d.span.Inside (UInt32.ofNat b.state.pos) (UInt32.ofNat b.final.pos) := by
  have hfinal : b.final.pos < UInt32.size := b.final_pos ▸ hsize
  have hbetween := b.remaining_between hcancel
  have hmark : b.mark.span.Inside (UInt32.ofNat b.state.pos) (UInt32.ofNat b.final.pos) :=
    (Span.between_point b.pos_le (Nat.le_refl _)).inside hfinal
  have hinside := (parseRest_inside cfg rfl (UInt32.le_trans hmark.1.1 hmark.1.2) hmark
    (b.behind_inside hcancel hsize)).2
  refine List.forall_mem_append.mpr ⟨fun d hd => ?_, hinside⟩
  refine (hbetween.diagnostics d ?_).inside hfinal
  change d ∈ b.remaining.diagnostics ++ ((finish b.final).diagnostics ++ [])
  rwa [List.append_nil]

/-- The faults of a document before a boundary and behind it. -/
theorem filter_diagnostics :
    (parse cfg source).diagnostics.filter
          (fun d => decide (d.span.start < UInt32.ofNat b.state.pos)) =
        Diagnostic.sort (b.emitted.diagnostics ++ b.joint.state.diagnostics) ∧
      (parse cfg source).diagnostics.filter
          (fun d => decide (UInt32.ofNat b.state.pos ≤ d.span.start)) =
        Diagnostic.sort ((b.remaining.diagnostics ++ (finish b.final).diagnostics) ++ b.parsed.2) := by
  have hlt := b.faults_lt hcancel hsize
  have hge : ∀ d ∈ (b.remaining.diagnostics ++ (finish b.final).diagnostics) ++ b.parsed.2,
      UInt32.ofNat b.state.pos ≤ d.span.start := fun d hd =>
    (b.faults_inside hcancel hsize d hd).1.1
  have hlt' : ∀ d ∈ Diagnostic.sort (b.emitted.diagnostics ++ b.joint.state.diagnostics),
      d.span.start < UInt32.ofNat b.state.pos := fun d hd => hlt d (Diagnostic.mem_sort.mp hd)
  have hge' : ∀ d ∈ Diagnostic.sort ((b.remaining.diagnostics ++ (finish b.final).diagnostics) ++
      b.parsed.2), UInt32.ofNat b.state.pos ≤ d.span.start :=
    fun d hd => hge d (Diagnostic.mem_sort.mp hd)
  obtain ⟨hscan, hparse⟩ := List.forall_mem_append.mp hlt
  obtain ⟨hscan', hparse'⟩ := List.forall_mem_append.mp hge
  rw [b.parse_eq hcancel]
  change (Diagnostic.sort _).filter _ = _ ∧ (Diagnostic.sort _).filter _ = _
  rw [Diagnostic.sort_parts hscan hparse hscan' hparse', List.filter_append, List.filter_append,
    List.filter_eq_self.mpr fun d hd => decide_eq_true (hlt' d hd),
    List.filter_eq_nil_iff.mpr fun d hd => by simpa using hge' d hd,
    List.filter_eq_nil_iff.mpr fun d hd => by simpa using hlt' d hd,
    List.filter_eq_self.mpr fun d hd => decide_eq_true (hge' d hd), List.append_nil, List.nil_append]
  exact ⟨rfl, rfl⟩

/-- The comments of a document before a boundary and behind it. -/
theorem filter_comments :
    (parse cfg source).comments.filter (fun t => decide (t.span.start < UInt32.ofNat b.state.pos)) =
        b.emitted.comments ∧
      (parse cfg source).comments.filter (fun t => decide (UInt32.ofNat b.state.pos ≤ t.span.start)) =
        b.remaining.comments := by
  have hpos := b.pos_lt hsize
  have hlimit : (State.start source).limit < UInt32.size := by simpa [State.limit, State.start] using hsize
  have hlt : ∀ t ∈ b.emitted.comments, t.span.start < UInt32.ofNat b.state.pos := fun t ht =>
    UInt32.lt_of_lt_of_le ((b.reaches.arranged hlimit).nonempty t ht)
      ((b.reaches.covers.between.comments t ht).inside hpos).2.2
  have hge : ∀ t ∈ b.remaining.comments, UInt32.ofNat b.state.pos ≤ t.span.start := fun t ht =>
    ((b.reaches_final.covers.between.comments t ht).inside (b.final_pos ▸ hsize)).1.1
  rw [b.parse_eq hcancel]
  change (b.emitted.comments ++ b.remaining.comments).filter _ = _ ∧
    (b.emitted.comments ++ b.remaining.comments).filter _ = _
  rw [List.filter_append, List.filter_append,
    List.filter_eq_self.mpr fun t ht => decide_eq_true (hlt t ht),
    List.filter_eq_nil_iff.mpr fun t ht => by simpa using hge t ht,
    List.filter_eq_nil_iff.mpr fun t ht => by simpa using hlt t ht,
    List.filter_eq_self.mpr fun t ht => decide_eq_true (hge t ht), List.append_nil,
    List.nil_append]
  exact ⟨rfl, rfl⟩

/-- The line starts of a document behind a boundary. -/
theorem filter_lineStates :
    (parse cfg source).lineStates.filter (fun l => decide (UInt32.ofNat b.state.pos < l.offset)) =
      b.remaining.lineStates := by
  have hpos := b.pos_lt hsize
  have hlimit : (State.start source).limit < UInt32.size := by simpa [State.limit, State.start] using hsize
  have hle : ∀ l ∈ b.emitted.lineStates, l.offset ≤ UInt32.ofNat b.state.pos := fun l hl => by
    rw [UInt32.le_iff_toNat_le, Offset.toNat_ofNat hpos]
    exact ((b.reaches.records hlimit).ahead l hl).1
  have hgt : ∀ l ∈ b.remaining.lineStates, UInt32.ofNat b.state.pos < l.offset := fun l hl => by
    rw [UInt32.lt_iff_toNat_lt, Offset.toNat_ofNat hpos]
    exact ((b.reaches_final.records (b.reaches.covers.limit_eq ▸ hlimit)).behind l hl).2 b.reads.inside
  rw [b.parse_eq hcancel]
  change (b.emitted.lineStates ++ b.remaining.lineStates).filter _ = _
  rw [List.filter_append, List.filter_eq_nil_iff.mpr fun l hl => by simpa using hle l hl,
    List.filter_eq_self.mpr fun l hl => decide_eq_true (hgt l hl), List.nil_append]

end

end Boundary

end Document

end Offside
