import Offside.Proofs.Document.Fresh
import Offside.Proofs.Tree.Shift

namespace Offside

open Layout (Snapshot)
open Scan

namespace Document

open Offside.Part

variable {cfg : Config} {d d' : Document} {new : String} {edit : Edit} {kept : Nat} {offset stop : Offset}
  {snapshot : Snapshot} {s : State} {stops : List Offset} {a b : Offset} {n : Nat}

def isPadded (cfg : Config) (source : String) (offset : Offset) : Bool :=
  match Text.splitAtByte? offset.toNat source.toList with
  | some (_, rest) =>
    (Layout.indentation cfg.tabWidth rest).width == 0 && (Layout.indentation cfg.tabWidth rest).length != 0
  | none => false

/-- No line that an edit can stop at starts with blanks that take no columns. -/
def Unpadded (cfg : Config) (d : Document) (new : String) (edit : Edit) : Prop :=
  ∀ o ∈ d.stopPoints edit (d.untouched edit).1, isPadded cfg new o = false

instance : Decidable (d.Unpadded cfg new edit) :=
  List.decidableBAll _ _

def endOf (source : String) : Offset := UInt32.ofNat (Text.byteSize source.toList)

section Moves

/-- What an edit says that fits two lengths. -/
theorem isConsistent_spec (h : edit.isConsistent n (Text.byteSize new.toList) = true) :
    edit.oldStop.toNat ≤ n ∧ ((n : Int) + edit.delta = Text.byteSize new.toList) := by
  simp only [Edit.isConsistent, Bool.and_eq_true, decide_eq_true_eq] at h
  exact ⟨h.1.1.2, h.2⟩

variable {o x y : Offset} (hedit : edit.isConsistent n (Text.byteSize new.toList) = true)
  (hnew : Text.byteSize new.toList < UInt32.size)

include hedit hnew

/-- What an edit moves, it moves by the change in length, and to a place in the new text. -/
theorem toNat_moved (hx : edit.oldStop ≤ x ∧ x ≤ UInt32.ofNat n) :
    ((Offset.shift x edit.delta).toNat : Int) = x.toNat + edit.delta := by
  obtain ⟨-, hlength⟩ := isConsistent_spec hedit
  rw [UInt32.le_iff_toNat_le, UInt32.le_iff_toNat_le] at hx
  have hn : (UInt32.ofNat n).toNat ≤ n := by
    rw [UInt32.toNat_ofNat']
    exact Nat.mod_le _ _
  refine Offset.toNat_shift ?_ ?_
  · rw [Edit.delta]
    omega
  · omega

theorem keepsOrder_moved (ho : edit.oldStop ≤ o) :
    KeepsOrder (Offset.shift · edit.delta) o (UInt32.ofNat n) := by
  intro x y hx hy
  have hx := toNat_moved hedit hnew ⟨UInt32.le_trans ho hx.1, hx.2⟩
  have hy := toNat_moved hedit hnew ⟨UInt32.le_trans ho hy.1, hy.2⟩
  change Offset.shift x edit.delta ≤ Offset.shift y edit.delta ↔ x ≤ y
  rw [UInt32.le_iff_toNat_le, UInt32.le_iff_toNat_le]
  omega

omit hnew in
theorem moved_end : Offset.shift (UInt32.ofNat n) edit.delta = endOf new :=
  Offset.shift_ofNat (isConsistent_spec hedit).2.symm

end Moves

/-- A stop point is where a statement without a fault starts, moved. -/
theorem exists_stopPoint (h : stop ∈ d.stopPoints edit kept) : ∃ t ∈ d.body,
    edit.oldStop ≤ t.span.start ∧ d.toPart.CleanAt t.span.start ∧ stop = Offset.shift t.span.start edit.delta := by
  obtain ⟨start, hstart, hstop⟩ := List.mem_filterMap.mp h
  obtain ⟨t, ht, rfl⟩ := List.mem_map.mp hstart
  split at hstop
  · next hcond =>
    refine ⟨t, (List.drop_sublist _ _).subset (List.mem_filter.mp ht).1, hcond.1, ?_, (Option.some.inj hstop).symm⟩
    exact cleanAt_iff.mpr (by simpa using hcond.2)
  · contradiction

/-- The way back from a stop point to the statement. -/
theorem unmoved_stop (o : Offset) : Offset.shift (Offset.shift o edit.delta) (-edit.delta) = o := by
  rw [Offset.shift_shift, Int.add_right_neg, Offset.shift_zero]

section Resume

/-- What is remembered where a scan resumes. -/
theorem snapshotAt?_spec (h : d.toPart.Lies a b) (hsnapshot : d.snapshotAt? offset = some snapshot) :
    snapshot.depth = 0 ∧ Layout.Nested snapshot.levels := by
  unfold snapshotAt? at hsnapshot
  split at hsnapshot
  · cases hsnapshot
    exact ⟨rfl, [], rfl, List.forall_mem_nil _⟩
  · split at hsnapshot
    · next l hl =>
      split at hsnapshot
      · next hdepth =>
        cases hsnapshot
        exact ⟨hdepth, h.levels l (List.mem_of_find?_eq_some hl)⟩
      · contradiction
    · contradiction

/-- The state that a scan resumes in: outside brackets, on a character of the text. -/
theorem resume?_spec (h : d.toPart.Lies a b) (hsnapshot : d.snapshotAt? offset = some snapshot)
    (hs : State.resume? new offset.toNat snapshot = some s) :
    s.Sound ∧ s.openers = [] ∧ s.pos = offset.toNat ∧
      ∃ p, new.toList = p ++ s.rest ∧ Text.byteSize p = offset.toNat := by
  obtain ⟨hdepth, hlevels⟩ := snapshotAt?_spec h hsnapshot
  unfold State.resume? at hs
  split at hs
  · obtain ⟨⟨p, q⟩, hsplit, rfl⟩ := Option.map_eq_some_iff.mp hs
    obtain ⟨hp, hsize⟩ := Text.eq_append_of_splitAtByte? hsplit
    have hopeners : List.replicate snapshot.depth (⟨"", Span.ofNat offset.toNat offset.toNat⟩ : Opener) = [] := by
      rw [hdepth]
      rfl
    refine ⟨⟨?_, fun _ => rfl, fun hne => absurd hopeners hne⟩, hopeners, rfl, p, hp, hsize⟩
    dsimp only
    split
    · exact ⟨[], rfl, List.forall_mem_nil _⟩
    · exact hlevels
  · contradiction

/-- The statements that are kept. -/
theorem kept_within (h : d.toPart.Lies 0 b) (hresume : d.resumePoint? new edit = some (kept, offset)) :
    (d.keptPart kept offset).Within (d.toPart.Fits 0 b) 0 offset := by
  rcases resumePoint?_spec hresume with ⟨rfl, rfl⟩ | ⟨-, ss, t, rest, hbody, rfl, rfl, -, hfault⟩
  · rw [keptPart_zero]
    exact .empty _ 0 0
  · have hclean := cleanAt_iff.mpr hfault
    exact ⟨keptPart_lies hbody hclean h, keptPart_fits hbody hclean⟩

end Resume

/-- The old statements that are taken over, with the line starts behind the first of them. -/
theorem takenOver_within (hnew : Text.byteSize new.toList < UInt32.size)
    (hedit : edit.isConsistent n (Text.byteSize new.toList) = true)
    (h : d.toPart.Lies a (UInt32.ofNat n)) {fresh behind : Part} (hstop : stop ∈ d.stopPoints edit kept)
    (hbehind : d.takenOver? edit stop fresh = some behind) :
    (behind.Within (d.toPart.Fits a (UInt32.ofNat n)) stop (endOf new) ∧
      ∀ l ∈ behind.lineStates, stop < l.offset) ∧ ∀ x ∈ fresh.diagnostics, x.span.start < stop := by
  obtain ⟨t, ht, hle, hclean, rfl⟩ := exists_stopPoint hstop
  have hstart := (h.starts t ht).2
  have hmove := keepsOrder_moved hedit hnew hle
  rw [takenOver?, unmoved_stop] at hbehind
  split at hbehind
  swap
  · contradiction
  next hcond =>
  cases hbehind
  rw [movedPart_eq, ← moved_end hedit]
  refine ⟨⟨⟨(h.onward t.span.start).shift hstart hmove, fun hfits => (hfits.onward ht hclean).shift hstart hmove⟩,
    List.forall_mem_map.mpr fun l hl => ?_⟩, fun x hx => of_decide_eq_true (List.all_eq_true.mp hcond.1 x hx)⟩
  have hl' := (h.onward t.span.start).lines l hl
  exact (hmove.lt_iff ⟨UInt32.le_refl _, hstart⟩ hl').mpr (of_decide_eq_true (List.mem_filter.mp hl).2)

/-- Where a document is reused, it was parsed to its end and the edit fits the texts. -/
theorem reuse?_consistent (h : reuse? cfg d new edit = some d') :
    edit.isConsistent d.span.stop.toNat (Text.byteSize new.toList) = true := by
  obtain ⟨scanned, hscan, -⟩ := Option.bind_eq_some_iff.mp h
  unfold rescan? at hscan
  split at hscan
  · contradiction
  · next hcond =>
    simp only [not_or, Bool.not_eq_true', Bool.not_eq_false] at hcond
    exact hcond.2.2

section Reuse

variable (h : d.toPart.Lies 0 d.span.stop) (hnew : Text.byteSize new.toList < UInt32.size)

include h hnew

/-- Where a resumed run ends: with the text, or where an old statement starts. Lines that are not padded
keep the end of the blocks there. -/
theorem resumed_ended (cfg : Config) (hresume : d.resumePoint? new edit = some (kept, offset))
    (hsnapshot : d.snapshotAt? offset = some snapshot)
    (hs : State.resume? new offset.toNat snapshot = some s) : ∃ b c e closing,
      Ended offset.toNat b c e closing (run cfg (d.stopPoints edit kept) s) ∧ c ≤ Text.byteSize new.toList ∧
        ((run cfg (d.stopPoints edit kept) s).stoppedAt = none ∧ c = b ∨
          (run cfg (d.stopPoints edit kept) s).stoppedAt = some (UInt32.ofNat b) ∧
            UInt32.ofNat b ∈ d.stopPoints edit kept ∧ (d.Unpadded cfg new edit → c = b)) := by
  obtain ⟨hsound, hopeners, hpos, p, hp, hsize⟩ := resume?_spec h hsnapshot hs
  have hlimit : s.limit = Text.byteSize new.toList := by
    rw [State.limit, hpos, ← hsize, ← Text.byteSize_append, ← hp]
  obtain ⟨b, c, e, closing, hended, hc, hstop⟩ :=
    exists_ended hsound hopeners (hlimit ▸ hnew) cfg (d.stopPoints edit kept)
  rw [hpos] at hended hstop
  rw [hlimit] at hc
  refine ⟨b, c, e, closing, hended, hc, hstop.imp (And.imp_right And.right) fun hpoint => ?_⟩
  obtain ⟨hsome, hmem, q, rest, hq, hb, hwidth, hzero⟩ := hpoint
  refine ⟨hsome, hmem, fun hnone => hzero ?_⟩
  -- the text is split where the run stopped
  have hkept : (d.untouched edit).1 = kept := by
    unfold resumePoint? at hresume
    dsimp only at hresume
    split at hresume
    · exact congrArg Prod.fst (Option.some.inj hresume)
    · contradiction
  have hprefix : (UInt32.ofNat b).toNat = Text.byteSize (p ++ q) := by
    have hbc := hended.le
    rw [Offset.toNat_ofNat (by omega), Text.byteSize_append, hb, hsize]
  have hpadded := hnone (UInt32.ofNat b) (hkept ▸ hmem)
  rw [isPadded, hprefix, hp, hq, ← List.append_assoc, Text.splitAtByte?_append] at hpadded
  simpa [hwidth] using hpadded

/-- What is put behind a resumed run lies between a place where it ended and the end of the text. What
the run found has its faults before that place, or nothing is put behind it. -/
theorem behind_within (hedit : edit.isConsistent d.span.stop.toNat (Text.byteSize new.toList) = true)
    {fresh behind : Part} {b c : Nat} {stoppedAt : Option Offset} {cancelled : Bool} (hbc : b ≤ c)
    (hstop : stoppedAt = none ∧ c = b ∨ stoppedAt = some (UInt32.ofNat b) ∧
      UInt32.ofNat b ∈ d.stopPoints edit kept ∧ (d.Unpadded cfg new edit → c = b))
    (hbehind : stoppedAt = none ∧ behind = {} ∨ ∃ stop, stoppedAt = some stop ∧
      (cancelled = true ∧ behind = {} ∨ d.takenOver? edit stop fresh = some behind)) :
    ∃ m, b ≤ m ∧ m ≤ c ∧ (m = c ∨ ∀ x ∈ fresh.diagnostics, x.span.start < UInt32.ofNat m) ∧
      behind.Within (d.toPart.Fits 0 d.span.stop) (UInt32.ofNat m) (endOf new) ∧
      ∀ l ∈ behind.lineStates, UInt32.ofNat m < l.offset := by
  have hold : UInt32.ofNat d.span.stop.toNat = d.span.stop := UInt32.ofNat_toNat
  rcases hbehind with ⟨rfl, rfl⟩ | ⟨stop, rfl, ⟨-, rfl⟩ | htaken⟩
  · exact ⟨c, hbc, Nat.le_refl c, Or.inl rfl, .empty _ _ _, List.forall_mem_nil _⟩
  · exact ⟨c, hbc, Nat.le_refl c, Or.inl rfl, .empty _ _ _, List.forall_mem_nil _⟩
  · obtain ⟨heq, hmem, -⟩ := hstop.resolve_left (by simp)
    obtain rfl := Option.some.inj heq
    rw [← hold] at h ⊢
    obtain ⟨⟨hwithin, hlines⟩, hlt⟩ := takenOver_within hnew hedit h hmem htaken
    exact ⟨b, Nat.le_refl b, hbc, Or.inr hlt, hwithin, hlines⟩

/-- Edits of a document keep its parts in order, and where no line is padded that they can stop at they
keep them apart. -/
theorem reuse?_within (hreuse : reuse? cfg d new edit = some d') :
    d'.toPart.Within (d.toPart.Fits 0 d.span.stop ∧ d.Unpadded cfg new edit) 0 d'.span.stop := by
  have hedit := reuse?_consistent hreuse
  obtain ⟨kept, offset, snapshot, s, behind, hresume, hsnapshot, hs, rfl, hbehind⟩ := reuse?_eq_some hreuse
  obtain ⟨b, c, e, closing, hended, hc, hstop⟩ := resumed_ended h hnew cfg hresume hsnapshot hs
  obtain ⟨m, hbm, hmc, hclean, hafter, hlines⟩ := behind_within h hnew hedit hended.le hstop hbehind
  have hbefore := kept_within h hresume
  have hab := hended.pos_le
  have hcsize : c < UInt32.size := Nat.lt_of_le_of_lt hc hnew
  have hfresh : (freshPart cfg (run cfg (d.stopPoints edit kept) s)).Within (d.Unpadded cfg new edit) offset
      (UInt32.ofNat m) := by
    have hstart : UInt32.ofNat offset.toNat = offset := UInt32.ofNat_toNat
    refine ⟨hstart ▸ freshPart_lies cfg hended hcsize hbm hmc hclean, fun hnone => ?_⟩
    have hcb := hstop.elim And.right fun hstopped => hstopped.2.2 hnone
    obtain rfl : m = b := Nat.le_antisymm (hcb ▸ hmc) hbm
    exact hstart ▸ freshPart_fits cfg hended hcsize hcb
  have hle : offset ≤ UInt32.ofNat m := by
    rw [UInt32.le_iff_toNat_le, Offset.toNat_ofNat (by omega)]
    omega
  have hend : UInt32.ofNat m ≤ endOf new := by
    rw [UInt32.le_iff_toNat_le, endOf, Offset.toNat_ofNat (by omega), Offset.toNat_ofNat hnew]
    omega
  have hfront := hbefore.append UInt32.zero_le hle
    (fun l hl l' hl' => UInt32.lt_of_lt_of_le (of_decide_eq_true (List.mem_filter.mp hl).2)
      (hfresh.lies.lines l' hl').1) hfresh
  have hall := hfront.append UInt32.zero_le hend
    (fun l hl l' hl' => UInt32.lt_of_le_of_lt (hfront.lies.lines l hl).2 (hlines l' hl')) hafter
  exact hall.weaken fun hboth => ⟨hboth, hboth.1⟩

end Reuse

/-- What a parse of a whole text contributes is what a run over it finds. -/
theorem parse_eq_fresh (cfg : Config) (source : String) :
    (parse cfg source).toPart = freshPart cfg (run cfg [] (.start source)) := by
  obtain ⟨e, t, h, hr, -⟩ := exists_end cfg (.start source)
  have hfirst := h.first_ne_dedent (State.sound_start source) rfl
  have hdrop : ownTokens (scan cfg source) = (scan cfg source).tokens := by
    unfold ownTokens
    have htokens : (scan cfg source).tokens = (e.tokens ++ (finish t).tokens) ++ (endMark t.pos).tokens := by
      rw [scan_of_reaches h hr, List.append_assoc]
      rfl
    rw [htokens]
    cases hall : e.tokens ++ (finish t).tokens with
    | nil => rfl
    | cons x xs =>
      rw [hall] at hfirst
      exact List.dropWhile_cons_of_neg (by simpa using hfirst x rfl)
  change Part.ofScan _ _ = Part.ofScan _ (Grammar.parse cfg (ownTokens (scan cfg source)))
  rw [hdrop]
  rfl

theorem parse_fits (cfg : Config) {source : String} (hsize : Text.byteSize source.toList < UInt32.size) :
    (parse cfg source).toPart.Fits 0 (parse cfg source).span.stop := by
  have hlimit : (State.start source).limit = Text.byteSize source.toList := by simp [State.limit, State.start]
  have hend : (parse cfg source).span.stop = UInt32.ofNat (State.start source).limit := by
    rw [hlimit]
    rfl
  obtain ⟨b, c, e, closing, hended, -, hstop⟩ :=
    exists_ended (State.sound_start source) rfl (hlimit ▸ hsize) cfg []
  rcases hstop with ⟨-, rfl, rfl⟩ | ⟨-, hmem, -⟩
  · rw [parse_eq_fresh, hend]
    exact freshPart_fits cfg hended (hlimit ▸ hsize) rfl
  · exact absurd hmem List.not_mem_nil

end Document

end Offside
