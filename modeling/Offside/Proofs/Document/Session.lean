import Offside.Proofs.Document.Step

namespace Offside

open Scan

def Part.StartsAt (p : Part) (o : Offset) : Prop :=
  (∃ s ∈ p.body, s.span.start = o) ∨ (∃ d ∈ p.diagnostics, d.span.start = o) ∨
    (∃ t ∈ p.comments, t.span.start = o ∨ t.span.stop = o) ∨ ∃ l ∈ p.lineStates, l.offset = o

def Part.Touches (p : Part) (o : Offset) : Prop :=
  (∃ s ∈ p.body, ∃ q, s.region.Holds q ∧ (q.start = o ∨ q.stop = o)) ∨
    (∃ d ∈ p.diagnostics, d.span.start = o ∨ d.span.stop = o) ∨
    (∃ t ∈ p.comments, t.span.start = o ∨ t.span.stop = o) ∨ ∃ l ∈ p.lineStates, l.offset = o

namespace Part

variable {p : Part} {a b o : Offset}

theorem Lies.startsAt (h : p.Lies a b) (ho : p.StartsAt o) : a ≤ o ∧ o ≤ b := by
  rcases ho with ⟨s, hs, rfl⟩ | ⟨d, hd, rfl⟩ | ⟨t, ht, rfl | rfl⟩ | ⟨l, hl, rfl⟩
  · exact h.starts s hs
  · exact h.faults d hd
  · exact (h.comments t ht).1
  · exact (h.comments t ht).2
  · exact h.lines l hl

theorem Fits.touches (h : p.Fits a b) (ho : p.Touches o) : a ≤ o ∧ o ≤ b := by
  rcases ho with ⟨s, hs, q, hq, ho⟩ | ⟨d, hd, rfl | rfl⟩ | ho | ho
  · have hq := (h.nested s hs).inside hq
    rw [Stmt.span_region] at hq
    have hin := hq.mono (h.starts s hs).1 (h.stops s hs)
    rcases ho with rfl | rfl
    · exact hin.1
    · exact hin.2
  · exact (h.faults_inside d hd).1
  · exact (h.faults_inside d hd).2
  · exact h.toLies.startsAt (Or.inr (Or.inr (Or.inl ho)))
  · exact h.toLies.startsAt (Or.inr (Or.inr (Or.inr ho)))

end Part

namespace Document

variable {admits : Config → Document → String → Edit → Prop} {source : String} {d : Document}

/-- The documents that come of a parse by edits of a kind. Each step has a text, an edit and a
configuration of its own; nothing ties the edit to the texts. -/
inductive Session (admits : Config → Document → String → Edit → Prop) : String → Document → Prop where
  | parsed {source : String} (cfg : Config) (hsize : Text.byteSize source.toList < UInt32.size) :
    Session admits source (parse cfg source)
  | edited {old new : String} {d : Document} {edit : Edit} (cfg : Config) (h : Session admits old d)
    (hsize : Text.byteSize new.toList < UInt32.size) (hadmits : admits cfg d new edit) :
    Session admits new (d.reparse cfg new edit)

/-- Edits that fit the lengths move what they take over without overflow: stop points are where
statements start, moved, and of what stands from such a statement on, each position of a kind is moved
by the change in length. -/
def MovesExactly (d : Document) (position : Part → Offset → Prop) : Prop :=
  ∀ (new : String) (edit : Edit) (kept : Nat), Text.byteSize new.toList < UInt32.size →
    edit.isConsistent d.span.stop.toNat (Text.byteSize new.toList) = true →
    ∀ stop ∈ d.stopPoints edit kept, ∃ s ∈ d.body, (stop.toNat : Int) = s.span.start.toNat + edit.delta ∧
      Offset.shift stop (-edit.delta) = s.span.start ∧
      ∀ o, position (d.toPart.onward s.span.start) o →
        ((Offset.shift o edit.delta).toNat : Int) = o.toNat + edit.delta

/-- Positions that lie in the text are moved without overflow. -/
theorem movesExactly_of {position : Part → Offset → Prop} (h : d.toPart.Lies 0 d.span.stop)
    (hposition : ∀ s ∈ d.body, d.toPart.CleanAt s.span.start → ∀ o, position (d.toPart.onward s.span.start) o →
      s.span.start ≤ o ∧ o ≤ d.span.stop) : d.MovesExactly position := by
  intro new edit kept hnew hedit stop hstop
  have hold : UInt32.ofNat d.span.stop.toNat = d.span.stop := UInt32.ofNat_toNat
  obtain ⟨s, hs, hle, hclean, rfl⟩ := exists_stopPoint hstop
  refine ⟨s, hs, toNat_moved hedit hnew ⟨hle, hold.symm ▸ (h.starts s hs).2⟩, unmoved_stop _, fun o ho => ?_⟩
  obtain ⟨hstart, hstop⟩ := hposition s hs hclean o ho
  exact toNat_moved hedit hnew ⟨UInt32.le_trans hle hstart, hold.symm ▸ hstop⟩

/-- An edit keeps a document in order. -/
theorem reparse_within {cfg : Config} {new : String} {edit : Edit} (h : d.toPart.Lies 0 d.span.stop)
    (hnew : Text.byteSize new.toList < UInt32.size) :
    (d.reparse cfg new edit).span = Span.ofNat 0 (Text.byteSize new.toList) ∧
      (d.reparse cfg new edit).toPart.Within (d.toPart.Fits 0 d.span.stop ∧ d.Unpadded cfg new edit) 0
        (d.reparse cfg new edit).span.stop := by
  unfold reparse
  cases hreuse : d.reuse? cfg new edit with
  | none => exact ⟨rfl, (parse_fits _ hnew).toLies, fun _ => parse_fits _ hnew⟩
  | some d' =>
    refine ⟨?_, reuse?_within h hnew hreuse⟩
    obtain ⟨kept, offset, snapshot, s, behind, -, -, -, rfl, -⟩ := reuse?_eq_some hreuse
    rfl

/-- What a session keeps. -/
theorem Session.within (h : Session admits source d) : d.span = Span.ofNat 0 (Text.byteSize source.toList) ∧
    d.toPart.Within (∀ cfg d new edit, admits cfg d new edit → d.Unpadded cfg new edit) 0 d.span.stop := by
  induction h with
  | parsed cfg hsize => exact ⟨rfl, (parse_fits cfg hsize).toLies, fun _ => parse_fits cfg hsize⟩
  | edited cfg _ hsize hadmits ih =>
    obtain ⟨hspan, hstep⟩ := reparse_within ih.2.lies hsize
    exact ⟨hspan, hstep.weaken fun hall => ⟨ih.2.fits hall, hall _ _ _ _ hadmits⟩⟩

theorem region_nested (h : d.toPart.Fits d.span.start d.span.stop) (hle : d.span.start ≤ d.span.stop) :
    d.region.Nested := by
  refine .mk hle (List.forall_mem_map.mpr fun s hs => ?_) (List.pairwise_map.mpr (h.apart.imp fun {s t} hst => ?_))
    (List.forall_mem_map.mpr h.nested)
  · rw [Stmt.span_region]
    exact ⟨(h.starts s hs).1, h.stops s hs⟩
  · rwa [Stmt.span_region, Stmt.span_region]

/-- Each document of a session spans its text. What is in it starts in the text, in order; so do its
comments and line starts lie, and edits move these positions without overflow. If no edit of the session
can stop at a padded line, the statements, with all that is in them, and the faults also end in the text,
the statements one behind the other, and edits move all of this without overflow. -/
theorem session_in_order (h : Session admits source d) :
    d.span = Span.ofNat 0 (Text.byteSize source.toList) ∧ d.toPart.Lies 0 (endOf source) ∧
      d.MovesExactly Part.StartsAt ∧
      ((∀ cfg d new edit, admits cfg d new edit → d.Unpadded cfg new edit) →
        d.toPart.Fits 0 (endOf source) ∧ d.region.Nested ∧ d.MovesExactly Part.Touches) := by
  obtain ⟨hspan, hlies, hfits⟩ := h.within
  have hstart : d.span.start = 0 := by rw [hspan]; rfl
  have hend : d.span.stop = endOf source := by rw [hspan]; rfl
  refine ⟨hspan, hend ▸ hlies, movesExactly_of hlies fun s hs _ o ho => ?_, fun hall => ?_⟩
  · exact (hlies.onward s.span.start).startsAt ho
  · have hfits := hfits hall
    refine ⟨hend ▸ hfits, region_nested (hstart ▸ hfits) (hstart ▸ UInt32.zero_le),
      movesExactly_of hlies fun s hs hclean o ho => ?_⟩
    exact (hfits.onward hs hclean).touches ho

/-- An edit that fits the lengths and nothing else: two statements of the old text stand in the new one. -/
theorem session_in_order_stale :
    (reuse? {} (parse {} "a = 1\nb = 2\nc = 3\n") "xyz\nqqqqqqqqqqq\n" ⟨0, 6, 4⟩).isSome = true ∧
      ((parse {} "a = 1\nb = 2\nc = 3\n").reparse {} "xyz\nqqqqqqqqqqq\n" ⟨0, 6, 4⟩).body.map Stmt.span =
        [⟨0, 3⟩, ⟨4, 9⟩, ⟨10, 15⟩] ∧
      ((parse {} "a = 1\nb = 2\nc = 3\n").reparse {} "xyz\nqqqqqqqqqqq\n" ⟨0, 6, 4⟩).toPart.Fits 0 16 ∧
      ((parse {} "a = 1\nb = 2\nc = 3\n").reparse {} "xyz\nqqqqqqqqqqq\n" ⟨0, 6, 4⟩).region.Nested := by
  have hunpadded : (parse {} "a = 1\nb = 2\nc = 3\n").Unpadded {} "xyz\nqqqqqqqqqqq\n" ⟨0, 6, 4⟩ := by
    decide +kernel
  have hsession : Session (fun cfg d new edit => d.Unpadded cfg new edit) "xyz\nqqqqqqqqqqq\n"
      ((parse {} "a = 1\nb = 2\nc = 3\n").reparse {} "xyz\nqqqqqqqqqqq\n" ⟨0, 6, 4⟩) :=
    .edited {} (.parsed {} (by decide)) (by decide) hunpadded
  obtain ⟨-, -, -, hordered⟩ := session_in_order hsession
  obtain ⟨hfits, hnested, -⟩ := hordered fun _ _ _ _ h => h
  exact ⟨by decide +kernel, by decide +kernel, hfits, hnested⟩

/-- A scan that stops at a line behind a form feed closes the open blocks behind the line start. The
statement that ends there reaches into the one taken over. -/
theorem session_overlap : ¬∀ (source : String) (d : Document), Session (fun _ _ _ _ => True) source d →
    d.body.Pairwise fun s t => s.span.stop ≤ t.span.start := by
  intro hall
  have hsession : Session (fun _ _ _ _ => True) "if :\n  bb\n\x0czz\n"
      ((parse {} "aaaaaaaaa\nzzz\n").reparse {} "if :\n  bb\n\x0czz\n" ⟨0, 10, 10⟩) :=
    .edited {} (.parsed {} (by decide)) (by decide) trivial
  have hspans : ((parse {} "aaaaaaaaa\nzzz\n").reparse {} "if :\n  bb\n\x0czz\n" ⟨0, 10, 10⟩).body.map Stmt.span =
      [⟨0, 11⟩, ⟨10, 13⟩] := by decide +kernel
  have hapart : (((parse {} "aaaaaaaaa\nzzz\n").reparse {} "if :\n  bb\n\x0czz\n" ⟨0, 10, 10⟩).body.map
      Stmt.span).Pairwise fun s t => s.stop ≤ t.start :=
    List.pairwise_map.mpr (hall _ _ hsession)
  rw [hspans] at hapart
  exact absurd hapart (by decide)

end Document

end Offside
