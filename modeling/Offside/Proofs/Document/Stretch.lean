import Mathlib.Tactic.Common
import Offside.Proofs.Document.Reparse
import Offside.Proofs.Scan.Parted
import Offside.Proofs.Tree.Moved

namespace Offside

section Positions

variable {a b m o x y : Offset} {p : Span}

theorem Span.Inside.mono {a' b' : Offset} (h : p.Inside a b) (ha : a' ≤ a) (hb : b ≤ b') : p.Inside a' b' :=
  ⟨⟨UInt32.le_trans ha h.1.1, UInt32.le_trans h.1.2 hb⟩, UInt32.le_trans ha h.2.1,
    UInt32.le_trans h.2.2 hb⟩

/-- What stands behind a position is on one side of all that come before it. -/
theorem Span.Inside.beside_of_le (h : p.Inside m b) (ho : o ≤ m) : p.Beside o :=
  Or.inr ⟨UInt32.le_trans ho h.1.1, UInt32.le_trans ho h.2.1⟩

theorem Span.Inside.beside_of_ge (h : p.Inside a m) (ho : m ≤ o) : p.Beside o :=
  Or.inl ⟨UInt32.le_trans h.1.2 ho, UInt32.le_trans h.2.2 ho⟩

theorem Span.Beside.inside_left (h : p.Beside o) (hp : p.Inside a b) (ho : p.start < o) : p.Inside a o := by
  obtain ⟨hstart, hstop⟩ := h.resolve_right fun hr => UInt32.not_lt.mpr hr.1 ho
  exact ⟨⟨hp.1.1, hstart⟩, hp.2.1, hstop⟩

theorem Span.Beside.inside_right (h : p.Beside o) (hp : p.Inside a b) (ho : o < p.start) : p.Inside o b := by
  obtain ⟨hstart, hstop⟩ := h.resolve_left fun hl => UInt32.not_lt.mpr hl.1 ho
  exact ⟨⟨hstart, hp.1.2⟩, hstop, hp.2.2⟩

end Positions

/-- A move keeps the order of the positions between two others. -/
def KeepsOrder (f : Offset → Offset) (a b : Offset) : Prop :=
  ∀ x y, a ≤ x ∧ x ≤ b → a ≤ y ∧ y ≤ b → (f x ≤ f y ↔ x ≤ y)

namespace KeepsOrder

variable {f : Offset → Offset} {a b o x y : Offset} {p : Span}

theorem lt_iff (h : KeepsOrder f a b) (hx : a ≤ x ∧ x ≤ b) (hy : a ≤ y ∧ y ≤ b) : f x < f y ↔ x < y := by
  rw [← UInt32.not_le, ← UInt32.not_le, h y x hy hx]

theorem inside (h : KeepsOrder f a b) (hab : a ≤ b) (hp : p.Inside a b) :
    (relocate f p).Inside (f a) (f b) := by
  have hboth {x : Offset} (hx : a ≤ x ∧ x ≤ b) : f a ≤ f x ∧ f x ≤ f b :=
    ⟨(h a x ⟨UInt32.le_refl a, hab⟩ hx).mpr hx.1, (h x b hx ⟨hab, UInt32.le_refl b⟩).mpr hx.2⟩
  exact ⟨hboth hp.1, hboth hp.2⟩

theorem beside (h : KeepsOrder f a b) (hp : p.Inside a b) (ho : a ≤ o ∧ o ≤ b) (hbeside : p.Beside o) :
    (relocate f p).Beside (f o) := by
  rcases hbeside with ⟨hstart, hstop⟩ | ⟨hstart, hstop⟩
  · exact Or.inl ⟨(h _ _ hp.1 ho).mpr hstart, (h _ _ hp.2 ho).mpr hstop⟩
  · exact Or.inr ⟨(h _ _ ho hp.1).mpr hstart, (h _ _ ho hp.2).mpr hstop⟩

end KeepsOrder

namespace Part

def CleanAt (p : Part) (o : Offset) : Prop := ∀ d ∈ p.diagnostics, d.span.start ≠ o

/-- A part that starts between two positions. All that is in it starts there, in order; comments and
line starts lie there, and comments keep to one side of where a statement without a fault starts. -/
structure Lies (a b : Offset) (p : Part) : Prop where
  starts : ∀ s ∈ p.body, a ≤ s.span.start ∧ s.span.start ≤ b
  ordered : p.body.Pairwise fun s t => s.span.start ≤ t.span.start
  faults : ∀ d ∈ p.diagnostics, a ≤ d.span.start ∧ d.span.start ≤ b
  sorted : p.diagnostics.Pairwise fun d e => d.span.start ≤ e.span.start
  comments : ∀ t ∈ p.comments, t.span.Inside a b
  inOrder : InOrder p.comments
  lines : ∀ l ∈ p.lineStates, a ≤ l.offset ∧ l.offset ≤ b
  increasing : p.lineStates.Pairwise fun l m => l.offset < m.offset
  levels : ∀ l ∈ p.lineStates, Layout.Nested l.snapshot.levels
  parted : ∀ s ∈ p.body, p.CleanAt s.span.start → ∀ t ∈ p.comments, t.span.Beside s.span.start

/-- A part between two positions. Its statements end there too, one behind the other, with all that is
in them, and so do its faults, which keep to one side of where a statement without one starts. -/
structure Fits (a b : Offset) (p : Part) : Prop extends p.Lies a b where
  stops : ∀ s ∈ p.body, s.span.stop ≤ b
  nested : ∀ s ∈ p.body, s.region.Nested
  apart : p.body.Pairwise fun s t => s.span.stop ≤ t.span.start
  faults_inside : ∀ d ∈ p.diagnostics, d.span.Inside a b
  faults_parted : ∀ s ∈ p.body, p.CleanAt s.span.start → ∀ d ∈ p.diagnostics, d.span.Beside s.span.start

def shift (p : Part) (delta : Int) : Part where
  body := p.body.map fun s => s.shift delta
  diagnostics := p.diagnostics.map fun d => d.shift delta
  comments := p.comments.map fun t => t.shift delta
  lineStates := p.lineStates.map fun l => l.shift delta

/-- The part from the statement at a position on, without the line start there. -/
def onward (p : Part) (o : Offset) : Part where
  body := p.body.dropWhile fun s => s.span.start != o
  diagnostics := p.diagnostics.filter fun d => decide (o ≤ d.span.start)
  comments := p.comments.filter fun t => decide (o ≤ t.span.start)
  lineStates := p.lineStates.filter fun l => decide (o < l.offset)

variable {p q : Part} {a b m o : Offset}

theorem CleanAt.left (h : (p ++ q).CleanAt o) : p.CleanAt o := fun d hd => h d (List.mem_append_left _ hd)

theorem CleanAt.right (h : (p ++ q).CleanAt o) : q.CleanAt o := fun d hd => h d (List.mem_append_right _ hd)

section Append

variable (ham : a ≤ m) (hmb : m ≤ b)
  (hlines : ∀ l ∈ p.lineStates, ∀ l' ∈ q.lineStates, l.offset < l'.offset)

include ham hmb hlines

/-- One part behind another. -/
theorem Lies.append (h : p.Lies a m) (h' : q.Lies m b) : (p ++ q).Lies a b where
  starts := List.forall_mem_append.mpr
    ⟨fun s hs => (h.starts s hs).imp_right fun hle => UInt32.le_trans hle hmb,
      fun s hs => (h'.starts s hs).imp_left (UInt32.le_trans ham)⟩
  ordered := List.pairwise_append.mpr
    ⟨h.ordered, h'.ordered, fun s hs t ht => UInt32.le_trans (h.starts s hs).2 (h'.starts t ht).1⟩
  faults := List.forall_mem_append.mpr
    ⟨fun d hd => (h.faults d hd).imp_right fun hle => UInt32.le_trans hle hmb,
      fun d hd => (h'.faults d hd).imp_left (UInt32.le_trans ham)⟩
  sorted := List.pairwise_append.mpr
    ⟨h.sorted, h'.sorted, fun d hd e he => UInt32.le_trans (h.faults d hd).2 (h'.faults e he).1⟩
  comments := List.forall_mem_append.mpr
    ⟨fun t ht => (h.comments t ht).mono (UInt32.le_refl a) hmb,
      fun t ht => (h'.comments t ht).mono ham (UInt32.le_refl b)⟩
  inOrder := h.inOrder.append h'.inOrder fun t ht u hu =>
    UInt32.le_trans (h.comments t ht).2.2 (h'.comments u hu).1.1
  lines := List.forall_mem_append.mpr
    ⟨fun l hl => (h.lines l hl).imp_right fun hle => UInt32.le_trans hle hmb,
      fun l hl => (h'.lines l hl).imp_left (UInt32.le_trans ham)⟩
  increasing := List.pairwise_append.mpr ⟨h.increasing, h'.increasing, hlines⟩
  levels := List.forall_mem_append.mpr ⟨h.levels, h'.levels⟩
  parted := List.forall_mem_append.mpr
    ⟨fun s hs hclean => List.forall_mem_append.mpr ⟨h.parted s hs hclean.left,
        fun t ht => (h'.comments t ht).beside_of_le (h.starts s hs).2⟩,
      fun s hs hclean => List.forall_mem_append.mpr
        ⟨fun t ht => (h.comments t ht).beside_of_ge (h'.starts s hs).1, h'.parted s hs hclean.right⟩⟩

theorem Fits.append (h : p.Fits a m) (h' : q.Fits m b) : (p ++ q).Fits a b where
  toLies := h.toLies.append ham hmb hlines h'.toLies
  stops := List.forall_mem_append.mpr ⟨fun s hs => UInt32.le_trans (h.stops s hs) hmb, h'.stops⟩
  nested := List.forall_mem_append.mpr ⟨h.nested, h'.nested⟩
  apart := List.pairwise_append.mpr
    ⟨h.apart, h'.apart, fun s hs t ht => UInt32.le_trans (h.stops s hs) (h'.starts t ht).1⟩
  faults_inside := List.forall_mem_append.mpr
    ⟨fun d hd => (h.faults_inside d hd).mono (UInt32.le_refl a) hmb,
      fun d hd => (h'.faults_inside d hd).mono ham (UInt32.le_refl b)⟩
  faults_parted := List.forall_mem_append.mpr
    ⟨fun s hs hclean => List.forall_mem_append.mpr ⟨h.faults_parted s hs hclean.left,
        fun d hd => (h'.faults_inside d hd).beside_of_le (h.starts s hs).2⟩,
      fun s hs hclean => List.forall_mem_append.mpr
        ⟨fun d hd => (h.faults_inside d hd).beside_of_ge (h'.starts s hs).1, h'.faults_parted s hs hclean.right⟩⟩

end Append

theorem Lies.empty (a b : Offset) : ({} : Part).Lies a b :=
  ⟨List.forall_mem_nil _, .nil, List.forall_mem_nil _, .nil, List.forall_mem_nil _, .nil,
    List.forall_mem_nil _, .nil, List.forall_mem_nil _, List.forall_mem_nil _⟩

theorem Fits.empty (a b : Offset) : ({} : Part).Fits a b :=
  ⟨.empty a b, List.forall_mem_nil _, List.forall_mem_nil _, .nil, List.forall_mem_nil _,
    List.forall_mem_nil _⟩

structure Within (exact : Prop) (a b : Offset) (p : Part) : Prop where
  lies : p.Lies a b
  fits : exact → p.Fits a b

namespace Within

variable {exact exact' : Prop}

theorem empty (exact : Prop) (a b : Offset) : ({} : Part).Within exact a b :=
  ⟨.empty a b, fun _ => .empty a b⟩

theorem weaken (h : p.Within exact a b) (himp : exact' → exact) : p.Within exact' a b :=
  ⟨h.lies, fun hexact => h.fits (himp hexact)⟩

theorem append (h : p.Within exact a m) (ham : a ≤ m) (hmb : m ≤ b)
    (hlines : ∀ l ∈ p.lineStates, ∀ l' ∈ q.lineStates, l.offset < l'.offset) (h' : q.Within exact' m b) :
    (p ++ q).Within (exact ∧ exact') a b :=
  ⟨h.lies.append ham hmb hlines h'.lies, fun hexact =>
    (h.fits hexact.1).append ham hmb hlines (h'.fits hexact.2)⟩

end Within

section Move

variable {delta : Int}

theorem CleanAt.of_shift (h : (p.shift delta).CleanAt (Offset.shift o delta)) : p.CleanAt o :=
  fun d hd heq => h (d.shift delta) (List.mem_map_of_mem hd) (congrArg (Offset.shift · delta) heq)

variable (hab : a ≤ b) (hmove : KeepsOrder (Offset.shift · delta) a b)

include hab hmove

/-- A part moved without overflow. -/
theorem Lies.shift (h : p.Lies a b) : (p.shift delta).Lies (Offset.shift a delta) (Offset.shift b delta) := by
  have hboth {x : Offset} (hx : a ≤ x ∧ x ≤ b) :
      Offset.shift a delta ≤ Offset.shift x delta ∧ Offset.shift x delta ≤ Offset.shift b delta :=
    (hmove.inside hab (p := .point x) ⟨hx, hx⟩).1
  have hstart (s : Stmt) : (s.shift delta).span.start = Offset.shift s.span.start delta := by
    rw [Stmt.shift, Stmt.span_mapSpans]
    rfl
  exact
    { starts := List.forall_mem_map.mpr fun s hs => hstart s ▸ hboth (h.starts s hs)
      ordered := List.pairwise_map.mpr (h.ordered.imp_of_mem fun {s t} hs ht hst => by
        rw [hstart, hstart]
        exact (hmove _ _ (h.starts s hs) (h.starts t ht)).mpr hst)
      faults := List.forall_mem_map.mpr fun d hd => hboth (h.faults d hd)
      sorted := List.pairwise_map.mpr (h.sorted.imp_of_mem fun {d e} hd he hde =>
        (hmove _ _ (h.faults d hd) (h.faults e he)).mpr hde)
      comments := List.forall_mem_map.mpr fun t ht => hmove.inside hab (h.comments t ht)
      inOrder :=
        { start_le := List.forall_mem_map.mpr fun t ht =>
            (hmove _ _ (h.comments t ht).1 (h.comments t ht).2).mpr (h.inOrder.start_le t ht)
          disjoint := List.pairwise_map.mpr (h.inOrder.disjoint.imp_of_mem fun {t u} ht hu htu =>
            (hmove _ _ (h.comments t ht).2 (h.comments u hu).1).mpr htu) }
      lines := List.forall_mem_map.mpr fun l hl => hboth (h.lines l hl)
      increasing := List.pairwise_map.mpr (h.increasing.imp_of_mem fun {l m} hl hm hlm =>
        (hmove.lt_iff (h.lines l hl) (h.lines m hm)).mpr hlm)
      levels := List.forall_mem_map.mpr h.levels
      parted := List.forall_mem_map.mpr fun s hs hclean => by
        rw [hstart] at hclean ⊢
        exact List.forall_mem_map.mpr fun t ht =>
          hmove.beside (h.comments t ht) (h.starts s hs) (h.parted s hs hclean.of_shift t ht) }

theorem Fits.shift (h : p.Fits a b) : (p.shift delta).Fits (Offset.shift a delta) (Offset.shift b delta) := by
  have hspan (s : Stmt) : (s.shift delta).span = relocate (Offset.shift · delta) s.span :=
    Stmt.span_mapSpans _ s
  have hinside (s : Stmt) (hs : s ∈ p.body) : s.span.Inside a b := by
    have hle : s.span.start ≤ s.span.stop := Stmt.span_region s ▸ (h.nested s hs).le
    exact ⟨h.starts s hs, UInt32.le_trans (h.starts s hs).1 hle, h.stops s hs⟩
  exact
    { toLies := h.toLies.shift hab hmove
      stops := List.forall_mem_map.mpr fun s hs => hspan s ▸ (hmove.inside hab (hinside s hs)).2.2
      nested := List.forall_mem_map.mpr fun s hs => by
        rw [Stmt.shift, Stmt.region_mapSpans]
        change (s.region.map (relocate (Offset.shift · delta))).Nested
        refine (h.nested s hs).map (a := a) (b := b) ?_ ?_ fun x y hx hxy hy => ?_
        · exact Stmt.span_region s ▸ (h.starts s hs).1
        · exact Stmt.span_region s ▸ h.stops s hs
        · exact (hmove x y ⟨hx, UInt32.le_trans hxy hy⟩ ⟨UInt32.le_trans hx hxy, hy⟩).mpr hxy
      apart := List.pairwise_map.mpr (h.apart.imp_of_mem fun {s t} hs ht hst => by
        rw [hspan, hspan]
        exact (hmove _ _ (hinside s hs).2 (hinside t ht).1).mpr hst)
      faults_inside := List.forall_mem_map.mpr fun d hd => hmove.inside hab (h.faults_inside d hd)
      faults_parted := List.forall_mem_map.mpr fun s hs hclean => by
        rw [hspan] at hclean ⊢
        exact List.forall_mem_map.mpr fun d hd =>
          hmove.beside (h.faults_inside d hd) (h.starts s hs) (h.faults_parted s hs hclean.of_shift d hd) }

end Move

section Onward

/-- From the first statement at a position on, statements start there or behind it. -/
theorem Lies.onward_starts (h : p.Lies a b) (o : Offset) : ∀ s ∈ (p.onward o).body, o ≤ s.span.start := by
  have hordered : (p.onward o).body.Pairwise fun s t => s.span.start ≤ t.span.start :=
    h.ordered.sublist (List.dropWhile_sublist _)
  cases hbody : (p.onward o).body with
  | nil => exact List.forall_mem_nil _
  | cons s rest =>
    have hfirst : s.span.start = o := by
      have hhead := List.head?_dropWhile_not (fun s : Stmt => s.span.start != o) p.body
      rw [show p.body.dropWhile (fun s : Stmt => s.span.start != o) = s :: rest from hbody] at hhead
      simpa using hhead
    rw [hbody] at hordered
    refine List.forall_mem_cons.mpr ⟨hfirst ▸ UInt32.le_refl _, fun t ht => ?_⟩
    exact hfirst ▸ (List.pairwise_cons.mp hordered).1 t ht

/-- No fault is left out that stands behind the position. -/
theorem CleanAt.of_onward {x : Offset} (h : (p.onward o).CleanAt x) (hx : o ≤ x) : p.CleanAt x :=
  fun d hd heq => h d (List.mem_filter.mpr ⟨hd, decide_eq_true (heq ▸ hx)⟩) heq

/-- The part from a position on. -/
theorem Lies.onward (h : p.Lies a b) (o : Offset) : (p.onward o).Lies o b where
  starts s hs := ⟨h.onward_starts o s hs, (h.starts s ((List.dropWhile_sublist _).subset hs)).2⟩
  ordered := h.ordered.sublist (List.dropWhile_sublist _)
  faults d hd := by
    obtain ⟨hd, ho⟩ := List.mem_filter.mp hd
    exact ⟨of_decide_eq_true ho, (h.faults d hd).2⟩
  sorted := h.sorted.sublist List.filter_sublist
  comments t ht := by
    obtain ⟨ht, ho⟩ := List.mem_filter.mp ht
    have hstart := of_decide_eq_true ho
    exact ⟨⟨hstart, (h.comments t ht).1.2⟩, UInt32.le_trans hstart (h.inOrder.start_le t ht), (h.comments t ht).2.2⟩
  inOrder := h.inOrder.sublist List.filter_sublist
  lines l hl := by
    obtain ⟨hl, ho⟩ := List.mem_filter.mp hl
    exact ⟨UInt32.le_of_lt (of_decide_eq_true ho), (h.lines l hl).2⟩
  increasing := h.increasing.sublist List.filter_sublist
  levels l hl := h.levels l (List.mem_filter.mp hl).1
  parted s hs hclean t ht := h.parted s ((List.dropWhile_sublist _).subset hs)
    (hclean.of_onward (h.onward_starts o s hs)) t (List.mem_filter.mp ht).1

theorem Fits.onward (h : p.Fits a b) {s : Stmt} (hs : s ∈ p.body) (hclean : p.CleanAt s.span.start) :
    (p.onward s.span.start).Fits s.span.start b where
  toLies := h.toLies.onward s.span.start
  stops t ht := h.stops t ((List.dropWhile_sublist _).subset ht)
  nested t ht := h.nested t ((List.dropWhile_sublist _).subset ht)
  apart := h.apart.sublist (List.dropWhile_sublist _)
  faults_inside d hd := by
    obtain ⟨hd, ho⟩ := List.mem_filter.mp hd
    refine (h.faults_parted s hs hclean d hd).inside_right (h.faults_inside d hd) ?_
    exact UInt32.lt_of_le_of_ne (of_decide_eq_true ho) (hclean d hd).symm
  faults_parted t ht hclean' d hd := h.faults_parted t ((List.dropWhile_sublist _).subset ht)
    (hclean'.of_onward (h.toLies.onward_starts _ t ht)) d (List.mem_filter.mp hd).1

end Onward

end Part

namespace Document

open Offside.Part

variable {d : Document} {a b o : Offset} {ss rest : List Stmt} {s : Stmt}

theorem movedPart_eq (d : Document) (o : Offset) (delta : Int) :
    d.movedPart o delta = (d.toPart.onward o).shift delta := rfl

theorem cleanAt_iff : d.toPart.CleanAt o ↔ d.hasFaultAt o = false := by
  simp [CleanAt, hasFaultAt]

section Kept

variable (hbody : d.body = ss ++ s :: rest) (hclean : d.toPart.CleanAt s.span.start)

include hbody

theorem keptPart_body : (d.keptPart ss.length s.span.start).body = ss := by
  rw [keptPart, hbody, List.take_left]

theorem mem_body_of_kept {t : Stmt} (ht : t ∈ (d.keptPart ss.length s.span.start).body) : t ∈ d.body := by
  rw [keptPart_body hbody] at ht
  rw [hbody]
  exact List.mem_append_left _ ht

theorem kept_starts (h : d.toPart.Lies a b) {t : Stmt}
    (ht : t ∈ (d.keptPart ss.length s.span.start).body) : t.span.start ≤ s.span.start := by
  have hordered := h.ordered
  rw [show d.toPart.body = _ from hbody] at hordered
  rw [keptPart_body hbody] at ht
  exact (List.pairwise_append.mp hordered).2.2 t ht s List.mem_cons_self

include hclean

/-- No fault is left out that stands where a kept statement starts. -/
theorem cleanAt_of_kept (h : d.toPart.Lies a b) {t : Stmt}
    (ht : t ∈ (d.keptPart ss.length s.span.start).body)
    (hkept : (d.keptPart ss.length s.span.start).CleanAt t.span.start) : d.toPart.CleanAt t.span.start := by
  intro e he heq
  have hle := kept_starts hbody h ht
  refine hkept e (List.mem_filter.mpr ⟨he, decide_eq_true ?_⟩) heq
  exact UInt32.lt_of_le_of_ne (heq ▸ hle) (hclean e he)

/-- The part before a statement without a fault at its start. -/
theorem keptPart_lies (h : d.toPart.Lies a b) : (d.keptPart ss.length s.span.start).Lies a s.span.start where
  starts t ht := ⟨(h.starts t (mem_body_of_kept hbody ht)).1, kept_starts hbody h ht⟩
  ordered := h.ordered.sublist (List.take_sublist _ _)
  faults e he := by
    obtain ⟨he, ho⟩ := List.mem_filter.mp he
    exact ⟨(h.faults e he).1, UInt32.le_of_lt (of_decide_eq_true ho)⟩
  sorted := h.sorted.sublist List.filter_sublist
  comments t ht := by
    obtain ⟨ht, ho⟩ := List.mem_filter.mp ht
    have hs : s ∈ d.body := by rw [hbody]; simp
    exact (h.parted s hs hclean t ht).inside_left (h.comments t ht) (of_decide_eq_true ho)
  inOrder := h.inOrder.sublist List.filter_sublist
  lines l hl := by
    obtain ⟨hl, ho⟩ := List.mem_filter.mp hl
    exact ⟨(h.lines l hl).1, UInt32.le_of_lt (of_decide_eq_true ho)⟩
  increasing := h.increasing.sublist List.filter_sublist
  levels l hl := h.levels l (List.mem_filter.mp hl).1
  parted t ht hkept u hu := h.parted t (mem_body_of_kept hbody ht)
    (cleanAt_of_kept hbody hclean h ht hkept) u (List.mem_filter.mp hu).1

theorem keptPart_fits (h : d.toPart.Fits a b) : (d.keptPart ss.length s.span.start).Fits a s.span.start where
  toLies := keptPart_lies hbody hclean h.toLies
  stops t ht := by
    have hapart := h.apart
    rw [show d.toPart.body = _ from hbody] at hapart
    rw [keptPart_body hbody] at ht
    exact (List.pairwise_append.mp hapart).2.2 t ht s List.mem_cons_self
  nested t ht := h.nested t (mem_body_of_kept hbody ht)
  apart := h.apart.sublist (List.take_sublist _ _)
  faults_inside e he := by
    obtain ⟨he, ho⟩ := List.mem_filter.mp he
    have hs : s ∈ d.body := by rw [hbody]; simp
    exact (h.faults_parted s hs hclean e he).inside_left (h.faults_inside e he) (of_decide_eq_true ho)
  faults_parted t ht hkept e he := h.faults_parted t (mem_body_of_kept hbody ht)
    (cleanAt_of_kept hbody hclean h.toLies ht hkept) e (List.mem_filter.mp he).1

end Kept

end Document

end Offside
