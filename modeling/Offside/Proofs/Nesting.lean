import Offside.Proofs.Extent.Stmt
import Offside.Proofs.Tree.Region

namespace Offside

open Region

namespace Cursor

variable {c d : Cursor} {a o : Offset} {rs ts cs : List Region} {r : Region} {s : Span}
  {us : List Token}

/-- The token consumed last ends in front of the end mark. -/
theorem Ordered.previousEnd_le_last (h : c.Ordered) : c.previousEnd ≤ c.last.span.stop := by
  refine UInt32.le_trans h.previousEnd_le ?_
  have hrest : InOrder (c.rest ++ [c.last]) := h.sublist (List.sublist_append_right _ _)
  have hlast := hrest.start_le c.last (List.mem_append_right _ (List.mem_singleton_self _))
  rw [current]
  cases hr : c.rest with
  | nil => exact hlast
  | cons t ts =>
    rw [hr] at hrest
    have hpair := (List.pairwise_append.mp hrest.disjoint).2.2 t List.mem_cons_self _ (List.mem_singleton_self _)
    exact UInt32.le_trans (hrest.start_le t List.mem_cons_self) (UInt32.le_trans hpair hlast)

/-- Regions behind an offset, one behind the other, that end in front of a cursor. -/
structure Laid (a : Offset) (rs : List Region) (c : Cursor) : Prop where
  last_eof : c.last.kind = .eof
  ordered : c.Ordered
  le : a ≤ c.current.span.start
  bounds : ∀ r ∈ rs, a ≤ r.span.start ∧ r.span.stop ≤ c.previousEnd
  apart : rs.Pairwise fun p q => p.span.stop ≤ q.span.start
  nested : ∀ r ∈ rs, r.Nested

structure Fresh (o : Offset) (c : Cursor) : Prop where
  laid : c.Laid o []
  start : c.current.span.start = o

namespace Laid

theorem fresh (h : c.Laid a rs) : c.Fresh c.current.span.start :=
  ⟨⟨h.last_eof, h.ordered, UInt32.le_refl _, List.forall_mem_nil _, .nil, List.forall_mem_nil _⟩, rfl⟩

theorem along (h : c.Laid a rs) (ht : c.Took us d) : d.Laid a rs where
  last_eof := ht.last_eq ▸ h.last_eof
  ordered := ht.ordered h.ordered
  le := UInt32.le_trans h.le (ht.start_le_start h.ordered)
  bounds r hr := (h.bounds r hr).imp_right fun hle => UInt32.le_trans hle (ht.previousEnd_le h.ordered)
  apart := h.apart
  nested := h.nested

theorem ahead (h : c.Laid a rs) (hd : c.Ahead d) : d.Laid a rs := by
  obtain ⟨us, ht⟩ := hd
  exact h.along ht

theorem sublist (h : c.Laid a rs) (hts : ts.Sublist rs) : c.Laid a ts where
  last_eof := h.last_eof
  ordered := h.ordered
  le := h.le
  bounds r hr := h.bounds r (hts.subset hr)
  apart := h.apart.sublist hts
  nested r hr := h.nested r (hts.subset hr)

/-- One more region, behind all the others. -/
theorem snoc (h : c.Laid a rs) (ha : a ≤ r.span.start) (hrs : ∀ p ∈ rs, p.span.stop ≤ r.span.start)
    (hr : r.Nested) (hstop : r.span.stop ≤ c.previousEnd) : c.Laid a (rs ++ [r]) where
  last_eof := h.last_eof
  ordered := h.ordered
  le := h.le
  bounds := List.forall_mem_append.mpr ⟨h.bounds, List.forall_mem_singleton.mpr ⟨ha, hstop⟩⟩
  apart := List.pairwise_append.mpr ⟨h.apart, List.pairwise_singleton _ _, fun p hp _ hq =>
    List.mem_singleton.mp hq ▸ hrs p hp⟩
  nested := List.forall_mem_append.mpr ⟨h.nested, List.forall_mem_singleton.mpr hr⟩

/-- A region may be laid in place of one that it is inside of. -/
theorem narrow_last {r' : Region} (h : c.Laid a (rs ++ [r])) (hr : r'.Narrows r) : c.Laid a (rs ++ [r']) := by
  have hin := h.bounds r (List.mem_append_right _ (List.mem_singleton_self r))
  refine (h.sublist (List.sublist_append_left _ _)).snoc (UInt32.le_trans hin.1 hr.start) (fun p hp => ?_)
    hr.nested (UInt32.le_trans hr.stop hin.2)
  exact UInt32.le_trans ((List.pairwise_append.mp h.apart).2.2 p hp r (List.mem_singleton_self r)) hr.start

/-- What is laid already ends in front of the current token. -/
theorem stop_le_current (h : c.Laid a rs) : ∀ r ∈ rs, r.span.stop ≤ c.current.span.start :=
  fun r hr => UInt32.le_trans (h.bounds r hr).2 h.ordered.previousEnd_le

/-- The current token, when it has been taken. -/
theorem take (h : c.Laid a rs) (hk : c.kind ≠ .eof) :
    c.advance.Laid a (rs ++ [leaf c.current.span]) := by
  have htook := took_current h.last_eof hk
  refine (h.along htook).snoc h.le h.stop_le_current (nested_leaf h.ordered.current_le) ?_
  exact htook.stop_le h.ordered (List.mem_singleton_self _)

/-- What was laid from the current token on is behind what was laid before. -/
theorem append (hc : c.Laid a rs) (hd : d.Laid c.current.span.start ts) (hmoved : c.Ahead d) :
    d.Laid a (rs ++ ts) where
  last_eof := hd.last_eof
  ordered := hd.ordered
  le := (hc.ahead hmoved).le
  bounds := List.forall_mem_append.mpr ⟨(hc.ahead hmoved).bounds, fun r hr =>
    (hd.bounds r hr).imp_left (UInt32.le_trans hc.le)⟩
  apart := List.pairwise_append.mpr ⟨hc.apart, hd.apart, fun p hp q hq =>
    UInt32.le_trans (hc.stop_le_current p hp) (hd.bounds q hq).1⟩
  nested := List.forall_mem_append.mpr ⟨hc.nested, hd.nested⟩

/-- The regions that are laid end in front of the last one's end. -/
theorem stop_le_last (h : d.Laid a rs) (hlast : rs.getLast? = some r) : ∀ p ∈ rs, p.span.stop ≤ r.span.stop := by
  obtain ⟨ps, rfl⟩ := List.getLast?_eq_some_iff.mp hlast
  refine List.forall_mem_append.mpr ⟨fun p hp => ?_, List.forall_mem_singleton.mpr (UInt32.le_refl _)⟩
  have hle := (List.pairwise_append.mp h.apart).2.2 p hp r (List.mem_singleton_self r)
  exact UInt32.le_trans hle (h.nested r (List.mem_append_right _ (List.mem_singleton_self r))).le

/-- A region around all that was laid. -/
theorem whole (h : d.Laid o ts) (hne : ts ≠ []) (hcs : cs.Sublist ts) (hstart : s.start = o)
    (hin : ∀ r ∈ ts, r.span.stop ≤ s.stop) (hstop : s.stop ≤ d.previousEnd) : d.Laid o [.mk s cs] := by
  subst hstart
  obtain ⟨r, hr⟩ := List.exists_mem_of_ne_nil ts hne
  have hle : s.start ≤ s.stop :=
    UInt32.le_trans (h.bounds r hr).1 (UInt32.le_trans (h.nested r hr).le (hin r hr))
  refine (h.sublist (List.nil_sublist ts)).snoc (UInt32.le_refl _) (List.forall_mem_nil _) ?_ hstop
  exact .mk hle (fun p hp => ⟨(h.bounds p (hcs.subset hp)).1, hin p (hcs.subset hp)⟩)
    (h.apart.sublist hcs) fun p hp => h.nested p (hcs.subset hp)

/-- A region around all that was laid, up to the token consumed last. -/
theorem spanned (h : d.Laid o ts) (hne : ts ≠ []) (hcs : cs.Sublist ts) :
    d.Laid o [.mk ⟨o, d.previousEnd⟩ cs] :=
  h.whole hne hcs rfl (fun r hr => (h.bounds r hr).2) (UInt32.le_refl _)

/-- A region around all that was laid, up to the last part. -/
theorem reaching (h : d.Laid o ts) (hlast : ts.getLast? = some r) (hcs : cs.Sublist ts) :
    d.Laid o [.mk ⟨o, r.span.stop⟩ cs] := by
  have hmem := List.mem_of_getLast? hlast
  exact h.whole (List.ne_nil_of_mem hmem) hcs rfl (h.stop_le_last hlast) (h.bounds r hmem).2

/-- A region around the last ones that were laid. -/
theorem close (h : d.Laid a (rs ++ ts)) (hhead : ∃ t, ts.head? = some t ∧ s.start = t.span.start)
    (hcs : cs.Sublist ts) (hin : ∀ r ∈ ts, r.span.stop ≤ s.stop) (hstop : s.stop ≤ d.previousEnd) :
    d.Laid a (rs ++ [.mk s cs]) := by
  obtain ⟨t, ht, hstart⟩ := hhead
  obtain ⟨us, rfl⟩ := List.head?_eq_some_iff.mp ht
  have hts : d.Laid a (t :: us) := h.sublist (List.sublist_append_right _ _)
  obtain ⟨-, hapart, hcross⟩ := List.pairwise_append.mp h.apart
  have hle : t.span.start ≤ t.span.stop := (hts.nested t List.mem_cons_self).le
  have hfirst : ∀ r ∈ t :: us, s.start ≤ r.span.start := by
    rw [hstart]
    exact List.forall_mem_cons.mpr ⟨UInt32.le_refl _, fun r hr =>
      UInt32.le_trans hle ((List.pairwise_cons.mp hapart).1 r hr)⟩
  refine (h.sublist (List.sublist_append_left _ _)).snoc ?_ (fun p hp => ?_) ?_ hstop
  · rw [Region.span, hstart]
    exact (hts.bounds t List.mem_cons_self).1
  · rw [Region.span, hstart]
    exact hcross p hp t List.mem_cons_self
  · refine .mk ?_ (fun p hp => ⟨hfirst p (hcs.subset hp), hin p (hcs.subset hp)⟩)
      (hapart.sublist hcs) fun p hp => hts.nested p (hcs.subset hp)
    rw [hstart]
    exact UInt32.le_trans hle (hin t List.mem_cons_self)

/-- A region up to the token consumed last. -/
theorem node (h : d.Laid a (rs ++ ts)) (hhead : ∃ t, ts.head? = some t ∧ s.start = t.span.start)
    (hcs : cs.Sublist ts) (hstop : s.stop = d.previousEnd) : d.Laid a (rs ++ [.mk s cs]) := by
  refine h.close hhead hcs (fun r hr => ?_) (hstop ▸ UInt32.le_refl _)
  rw [hstop]
  exact (h.bounds r (List.mem_append_right _ hr)).2

/-- A region up to the one laid last. -/
theorem through (h : d.Laid a (rs ++ ts)) (hhead : ∃ t, ts.head? = some t ∧ s.start = t.span.start)
    (hcs : cs.Sublist ts) (hlast : ∃ l, ts.getLast? = some l ∧ s.stop = l.span.stop) :
    d.Laid a (rs ++ [.mk s cs]) := by
  obtain ⟨l, hl, hstop⟩ := hlast
  have hts : d.Laid a ts := h.sublist (List.sublist_append_right _ _)
  refine h.close hhead hcs ?_ ?_
  · rw [hstop]
    exact hts.stop_le_last hl
  · rw [hstop]
    exact (hts.bounds l (List.mem_of_getLast? hl)).2

section Shapes

variable {t u : Span}

/-- A region between two tokens. -/
theorem bracketed (h : d.Laid a (rs ++ [leaf t] ++ cs ++ [leaf u])) :
    d.Laid a (rs ++ [.mk (t.through u) cs]) := by
  have hlist : d.Laid a (rs ++ (leaf t :: (cs ++ [leaf u]))) := by simpa using h
  refine hlist.through ⟨_, rfl, rfl⟩ ((List.sublist_append_left _ _).cons _) ⟨leaf u, ?_, rfl⟩
  rw [← List.cons_append, List.getLast?_concat]

/-- A region from a token on. -/
theorem opened (h : d.Laid a (rs ++ [leaf t] ++ cs)) (hstart : s.start = t.start)
    (hstop : s.stop = d.previousEnd) : d.Laid a (rs ++ [.mk s cs]) := by
  have hlist : d.Laid a (rs ++ leaf t :: cs) := by simpa using h
  exact hlist.node ⟨_, rfl, hstart⟩ (List.sublist_cons_self _ _) hstop

/-- A region from a token to the last part. -/
theorem led (h : d.Laid a (rs ++ [leaf t] ++ cs)) (hstart : s.start = t.start)
    (hlast : ∃ l, cs.getLast? = some l ∧ s.stop = l.span.stop) : d.Laid a (rs ++ [.mk s cs]) := by
  have hlist : d.Laid a (rs ++ leaf t :: cs) := by simpa using h
  obtain ⟨l, hl, hstop⟩ := hlast
  refine hlist.through ⟨_, rfl, hstart⟩ (List.sublist_cons_self _ _) ⟨l, ?_, hstop⟩
  rw [List.getLast?_cons, hl, Option.getD_some]

/-- A region from the one laid before on. -/
theorem extended (h : d.Laid a (rs ++ [r] ++ cs)) (hstart : s.start = r.span.start)
    (hstop : s.stop = d.previousEnd) : d.Laid a (rs ++ [.mk s (r :: cs)]) := by
  have hlist : d.Laid a (rs ++ r :: cs) := by simpa using h
  exact hlist.node ⟨_, rfl, hstart⟩ (List.Sublist.refl _) hstop

/-- A region from the one laid before to the last part. -/
theorem joined (h : d.Laid a (rs ++ [r] ++ cs)) (hstart : s.start = r.span.start)
    (hlast : ∃ l, (r :: cs).getLast? = some l ∧ s.stop = l.span.stop) :
    d.Laid a (rs ++ [.mk s (r :: cs)]) := by
  have hlist : d.Laid a (rs ++ r :: cs) := by simpa using h
  exact hlist.through ⟨_, rfl, hstart⟩ (List.Sublist.refl _) hlast

/-- A region from the one laid before to a token. -/
theorem ended (h : d.Laid a (rs ++ [r] ++ cs ++ [leaf t])) (hstart : s.start = r.span.start)
    (hstop : s.stop = t.stop) : d.Laid a (rs ++ [.mk s (r :: cs)]) := by
  have hlist : d.Laid a (rs ++ (r :: cs ++ [leaf t])) := by simpa using h
  refine hlist.through ⟨_, rfl, hstart⟩ (List.sublist_append_left _ _) ⟨leaf t, ?_, hstop⟩
  rw [List.getLast?_concat]

end Shapes

end Laid

end Cursor

namespace Rule

open Cursor

variable {α β : Type} {a : Offset} {rs : List Region} {k : Kind} {P : Cursor → Prop}
  {Q : β → Cursor → Prop} {regions : α → List Region} {region : α → Region}

/-- What a rule returns is laid behind all that was laid before. -/
def Lays (x : Rule α) (regions : α → List Region) : Prop :=
  ∀ a rs, Yields (Laid a rs) x fun v d => d.Laid a (rs ++ regions v)

section Tokens

theorem laid_of_moves {x : Rule α} (h : Moves Ahead P x) :
    Yields (fun c => c.Laid a rs ∧ P c) x fun _ d => d.Laid a rs := by
  intro c v d hc hr
  have hmove := h c hc.2
  rw [hr] at hmove
  exact hc.1.ahead hmove

/-- What comes after a rule that only moves over tokens. -/
theorem moves_after {x : Rule α} {g : α → Rule β} (hx : Moves Ahead (fun _ => True) x)
    (hg : ∀ v, Yields (Laid a rs) (g v) Q) : Yields (Laid a rs) (x >>= g) Q :=
  ((laid_of_moves hx).before fun _ hc => ⟨hc, trivial⟩).bind hg

theorem inner_after {x : Rule α} {g : α → Rule β} (hx : Inner x)
    (hg : ∀ v, Yields (Laid a rs) (g v) Q) : Yields (Laid a rs) (x >>= g) Q :=
  moves_after (hx.along track_ahead) hg

theorem advance_after {g : Token → Rule β} (hg : ∀ t, Yields (Laid a rs) (g t) Q) :
    Yields (Laid a rs) (Rule.advance >>= g) Q :=
  moves_after (fun c _ => c.ahead_advance) hg

theorem advance_lays (hk : k ≠ .eof) :
    Yields (fun c => c.Laid a rs ∧ c.kind = k) Rule.advance fun t d =>
      d.Laid a (rs ++ [leaf t.span]) := by
  intro c t d hc hr
  cases hr
  exact hc.1.take (hc.2 ▸ hk)

theorem expect_lays (hk : k ≠ .eof) : Lays (Rule.expect k) fun t => [leaf t.span] := by
  intro a rs c t d hc hr
  unfold Rule.expect at hr
  split at hr
  · next h =>
    cases hr
    exact hc.take (h ▸ hk)
  · cases hr

theorem expectDetailed_lays (hk : k ≠ .eof) {message : String} :
    Lays (Rule.expectDetailed k message) fun t => [leaf t.span] := by
  intro a rs c t d hc hr
  unfold Rule.expectDetailed at hr
  split at hr
  · next h =>
    cases hr
    exact hc.take (h ▸ hk)
  · cases hr

theorem previousEnd_after {g : Offset → Rule β} (hg : ∀ e, Yields (fun c => P c ∧ c.previousEnd = e) (g e) Q) :
    Yields P (Rule.previousEnd >>= g) Q :=
  Yields.read (φ := Cursor.previousEnd) hg

/-- A region that ends with the token consumed last. -/
theorem laid_previousEnd (region : α → Region) {f : Offset → α}
    (h : ∀ d : Cursor, P d → d.Laid a (rs ++ [region (f d.previousEnd)])) :
    Yields P (Rule.previousEnd >>= fun e => pure (f e)) fun v d => d.Laid a (rs ++ [region v]) := by
  intro c v d hc hr
  cases hr
  exact h c hc

/-- A region around all that was laid. -/
theorem spanned_previousEnd (region : α → Region) {o : Offset} {ts cs : List Region} {f : Offset → α}
    (hf : ∀ e, region (f e) = .mk ⟨o, e⟩ cs) (hne : ts ≠ []) (hcs : cs.Sublist ts) :
    Yields (Laid o ts) (Rule.previousEnd >>= fun e => pure (f e)) fun v d => d.Laid o [region v] := by
  intro c v d hc hr
  cases hr
  rw [hf]
  exact hc.spanned hne hcs

end Tokens

section Lists

variable {item : Rule α}

theorem Lays.map {f : α → β} {regions' : β → List Region} (h : Lays item regions)
    (hf : ∀ v, regions' (f v) = regions v) : Lays (f <$> item) regions' :=
  fun a rs => Yields.map ((h a rs).weaken fun v _ hd => (hf v).symm ▸ hd)

/-- It is enough to know what a rule lays from where it starts. -/
theorem lays_of_fresh {x : Rule α} (hx : Moves Ahead P x)
    (h : ∀ o, Yields (fun c => c.Fresh o ∧ P c) x fun v d => d.Laid o (regions v)) :
    Yields (fun c => c.Laid a rs ∧ P c) x fun v d => d.Laid a (rs ++ regions v) := by
  intro c v d hc hr
  have hmove := hx c hc.2
  rw [hr] at hmove
  exact hc.1.append (h _ c v d ⟨hc.1.fresh, hc.2⟩ hr) hmove

theorem Inner.lays {x : Rule α} (hx : Inner x)
    (h : ∀ o, Yields (Fresh o) x fun v d => d.Laid o (regions v)) : Lays x regions :=
  fun _ _ => (lays_of_fresh (hx.along (P := fun _ => True) track_ahead) fun o =>
    (h o).before fun _ hc => hc.1).before fun _ hc => ⟨hc, trivial⟩

theorem fresh_here {o : Offset} {g : Offset → Rule β} (hg : Yields (Fresh o) (g o) Q) :
    Yields (Fresh o) (Rule.here >>= g) Q := by
  intro c v d hc hr
  change g c.current.span.start c = .ok v d at hr
  rw [hc.start] at hr
  exact hg c v d hc hr

theorem pure_lays {v : α} (h : regions v = []) : Lays (pure v) regions :=
  fun a rs => Yields.pure fun d hd => by rwa [h, List.append_nil]

theorem many_lays (regions : α → List Region) {step : Rule (Option α)}
    (h : Lays step fun o => o.toList.flatMap regions) :
    Lays (Rule.repeated step) fun vs => vs.flatMap regions := by
  intro a rs
  refine (Yields.many_list (J := fun vs d => Laid a (rs ++ vs.flatMap regions) d) (fun vs => ?_) []).before
    fun c hc => by simpa using hc
  refine (h a _).weaken fun o d hd => ?_
  rw [List.flatMap_append, ← List.append_assoc]
  exact hd

theorem commaTail_lays_all (stop : Kind → Bool) (h : Lays item regions) :
    Lays (Rule.commaTail stop item) fun vs => vs.flatMap regions := by
  have hnone : Lays (pure none : Rule (Option α)) fun o => o.toList.flatMap regions := pure_lays rfl
  refine many_lays regions fun a rs => inner_after (eat_inner rfl) fun _ => Yields.ite (fun _ => ?_) fun _ => hnone a rs
  refine yields_kind fun _ => Yields.ite (fun _ => hnone a rs) fun _ => ?_
  exact Lays.map h (fun v => by simp) a rs

theorem commaTail_lays (stop : Kind → Bool) (h : Lays item fun v => [region v]) :
    Lays (Rule.commaTail stop item) (List.map region) := by
  intro a rs
  refine (commaTail_lays_all stop h a rs).weaken fun vs d hd => ?_
  rwa [List.map_eq_flatMap]

theorem commaList_lays (stop : Kind → Bool) (h : Lays item fun v => [region v]) :
    Lays (Rule.commaList stop item) (List.map region) := by
  refine fun a rs => (h a rs).bind fun v => (commaTail_lays stop h a _).bind fun vs => ?_
  exact Yields.pure fun d hd => by simpa using hd

theorem listUpTo_lays (close : Kind) (h : Lays item fun v => [region v]) :
    Lays (Rule.listUpTo close item) (List.map region) :=
  fun a rs => yields_kind fun _ => Yields.ite (fun _ => pure_lays rfl a rs) fun _ =>
    commaList_lays _ h a rs

theorem introduced_lays (hk : k.isBoundary = false) (h : Lays item fun v => [region v]) :
    Lays (Rule.introduced k item) (Region.optional region) :=
  fun a rs => inner_after (eat_inner hk) fun _ => Yields.ite
    (fun _ => Lays.map h (fun _ => rfl) a rs) fun _ => pure_lays rfl a rs

end Lists

end Rule

end Offside
