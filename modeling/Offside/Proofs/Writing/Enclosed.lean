import Offside.Proofs.Reading.Shape
import Offside.Proofs.Tree.MapSpans

namespace Offside

section Parts

variable (f : Place → Expr → Expr)

mutual

@[simp]
def Expr.mapParts : Expr → Expr
  | .integer s text value => .integer s text value
  | .float s value => .float s value
  | .string s value => .string s value
  | .boolean s value => .boolean s value
  | .noneLiteral s => .noneLiteral s
  | .symbol s name => .symbol s name
  | .list s elements => .list s (Expr.mapPartsAll elements)
  | .tuple s elements => .tuple s (Expr.mapPartsAll elements)
  | .set s elements => .set s (Expr.mapPartsAll elements)
  | .dict s entries => .dict s (Expr.mapPartsEntries entries)
  | .parenthesized s inner => .parenthesized s (f .free inner.mapParts)
  | .call s callee arguments =>
    .call s (f .callee callee.mapParts) (Argument.mapPartsAll arguments)
  | .genericCall s callee typeArguments arguments =>
    .genericCall s (f .object callee.mapParts) (Argument.mapPartsAll typeArguments)
      (Argument.mapPartsAll arguments)
  | .member s object name => .member s (f .object object.mapParts) name
  | .subscript s object indices =>
    .subscript s (f .object object.mapParts) (Expr.mapPartsAll indices)
  | .slice s lower upper step =>
    .slice s (Expr.mapPartsOpt lower) (Expr.mapPartsOpt upper) (Expr.mapPartsOpt step)
  | .transfer s value => .transfer s (f .object value.mapParts)
  | .unary s op operand => .unary s op (f op.place operand.mapParts)
  | .binary s op left right =>
    .binary s op (f op.leftPlace left.mapParts) (f op.rightPlace right.mapParts)
  | .comparison s first links =>
    .comparison s (f .first first.mapParts) (Expr.mapPartsLinks links)
  | .conditional s thenValue condition elseValue =>
    .conditional s (f .value thenValue.mapParts) (f .value condition.mapParts)
      (f .free elseValue.mapParts)

def Argument.mapParts : Argument → Argument
  | .positional value => .positional (f .value value.mapParts)
  | .keyword s name value => .keyword s name (f .value value.mapParts)

def Expr.mapPartsAll : List Expr → List Expr
  | [] => []
  | e :: es => f .free e.mapParts :: Expr.mapPartsAll es

def Expr.mapPartsEntries : List (Expr × Expr) → List (Expr × Expr)
  | [] => []
  | (key, value) :: rest =>
    (f .free key.mapParts, f .free value.mapParts) :: Expr.mapPartsEntries rest

def Expr.mapPartsLinks : List (ComparisonOp × Expr) → List (ComparisonOp × Expr)
  | [] => []
  | (op, operand) :: rest => (op, f .compared operand.mapParts) :: Expr.mapPartsLinks rest

def Expr.mapPartsOpt : Option Expr → Option Expr
  | none => none
  | some e => some (f .free e.mapParts)

def Argument.mapPartsAll : List Argument → List Argument
  | [] => []
  | a :: as => a.mapParts :: Argument.mapPartsAll as

end

theorem Expr.mapPartsAll_eq_map (es : List Expr) :
    Expr.mapPartsAll f es = es.map fun e => f .free (e.mapParts f) := by
  induction es with
  | nil => rfl
  | cons e es ih => rw [Expr.mapPartsAll, ih, List.map_cons]

theorem Expr.mapPartsEntries_eq_map (entries : List (Expr × Expr)) :
    Expr.mapPartsEntries f entries =
      entries.map fun entry => (f .free (entry.1.mapParts f), f .free (entry.2.mapParts f)) := by
  induction entries with
  | nil => rfl
  | cons entry entries ih => rw [Expr.mapPartsEntries, ih, List.map_cons]

theorem Expr.mapPartsLinks_eq_map (links : List (ComparisonOp × Expr)) :
    Expr.mapPartsLinks f links = links.map fun link => (link.1, f .compared (link.2.mapParts f)) := by
  induction links with
  | nil => rfl
  | cons link links ih => rw [Expr.mapPartsLinks, ih, List.map_cons]

theorem Argument.mapPartsAll_eq_map (as : List Argument) :
    Argument.mapPartsAll f as = as.map (Argument.mapParts f) := by
  induction as with
  | nil => rfl
  | cons a as ih => rw [Argument.mapPartsAll, ih, List.map_cons]

end Parts

/-- Whether an expression is written in a place as it is, without parentheses around it. -/
def Place.admits : Place → Expr → Bool
  | left level, e => level ≤ e.level
  | right level, e => level < e.level
  | base, e => .trailer ≤ e.level
  | exponent, e => .unary ≤ e.level
  | first, e | compared, e => .comparison < e.level
  | negated, e => .not ≤ e.level
  | signed, e => .unary ≤ e.level
  | object, e => .trailer ≤ e.level
  -- brackets in front of the parentheses of a call would be its type arguments
  | callee, e => .trailer ≤ e.level && !e.isSubscript
  | value, e => .conditional < e.level
  | free, _ => true

def Place.enclose (place : Place) (e : Expr) : Expr :=
  if place.admits e then e else .parenthesized e.span e

theorem Place.admits_parenthesized {place : Place} (h : place ≠ .right .primary) (s : Span) (e : Expr) :
    place.admits (.parenthesized s e) = true := by
  cases place with
  | left level => cases level <;> rfl
  | right level => cases level <;> first | rfl | exact absurd rfl h
  | _ => rfl

def Place.Suits (place : Place) (e : Expr) : Prop := place.admits e = true ∧ e.isSlice = false

namespace Expr

/-- An expression with parentheses around each part that its place does not admit. -/
def enclosed (e : Expr) : Expr := e.mapParts Place.enclose

theorem level_enclosed (e : Expr) : e.enclosed.level = e.level := by cases e <;> rfl

theorem isSlice_enclosed (e : Expr) : e.enclosed.isSlice = e.isSlice := by cases e <;> rfl

def unwrapped : Expr → Expr
  | parenthesized _ inner => inner
  | e => e

def spanless (e : Expr) : Expr := e.mapSpans fun _ => default

/-- An expression without spans and without parentheses that only group. -/
def plain (e : Expr) : Expr := (e.spanless.mapParts fun _ => unwrapped).unwrapped

theorem plain_parenthesized (s : Span) (e : Expr) : (parenthesized s e).plain = e.plain := rfl

theorem plain_enclose (place : Place) (e : Expr) : (place.enclose e).plain = e.plain := by
  unfold Place.enclose
  split
  · rfl
  · exact plain_parenthesized _ e

end Expr

def Argument.plain : Argument → Argument
  | .positional value => .positional value.plain
  | .keyword _ name value => .keyword default name value.plain

namespace Expr

variable (s : Span)

theorem plain_list (es : List Expr) : (list s es).plain = .list default (es.map plain) := by
  simp [plain, spanless, mapSpans, mapParts, mapSpansAll_eq_map, mapPartsAll_eq_map, unwrapped]

theorem plain_tuple (es : List Expr) : (tuple s es).plain = .tuple default (es.map plain) := by
  simp [plain, spanless, mapSpans, mapParts, mapSpansAll_eq_map, mapPartsAll_eq_map, unwrapped]

theorem plain_set (es : List Expr) : (set s es).plain = .set default (es.map plain) := by
  simp [plain, spanless, mapSpans, mapParts, mapSpansAll_eq_map, mapPartsAll_eq_map, unwrapped]

theorem plain_dict (entries : List (Expr × Expr)) : (dict s entries).plain =
    .dict default (entries.map fun entry => (entry.1.plain, entry.2.plain)) := by
  simp [plain, spanless, mapSpans, mapParts, mapSpansEntries_eq_map, mapPartsEntries_eq_map, unwrapped]

theorem plain_slice (lower upper step : Option Expr) : (slice s lower upper step).plain =
    .slice default (lower.map plain) (upper.map plain) (step.map plain) := by
  cases lower <;> cases upper <;> cases step <;> rfl

theorem plain_comparison (first : Expr) (links : List (ComparisonOp × Expr)) :
    (comparison s first links).plain =
      .comparison default first.plain (links.map fun link => (link.1, link.2.plain)) := by
  simp [plain, spanless, mapSpans, mapParts, mapSpansLinks_eq_map, mapPartsLinks_eq_map, unwrapped]

theorem plain_conditional (thenValue condition elseValue : Expr) :
    (conditional s thenValue condition elseValue).plain =
      .conditional default thenValue.plain condition.plain elseValue.plain := rfl

theorem plain_subscript (object : Expr) (es : List Expr) :
    (subscript s object es).plain = .subscript default object.plain (es.map plain) := by
  simp [plain, spanless, mapSpans, mapParts, mapSpansAll_eq_map, mapPartsAll_eq_map, unwrapped]

theorem mapParts_mapSpans (as : List Argument) :
    (as.map (Argument.mapSpans fun _ => default)).map (Argument.mapParts fun _ => unwrapped) =
      as.map Argument.plain := by
  rw [List.map_map]
  exact List.map_congr_left fun a _ => by cases a <;> rfl

theorem plain_call (callee : Expr) (as : List Argument) :
    (call s callee as).plain = .call default callee.plain (as.map Argument.plain) := by
  rw [← mapParts_mapSpans]
  simp only [plain, spanless, mapSpans, mapParts, Argument.mapSpansAll_eq_map,
    Argument.mapPartsAll_eq_map, unwrapped]

theorem plain_genericCall (callee : Expr) (ts as : List Argument) :
    (genericCall s callee ts as).plain =
      .genericCall default callee.plain (ts.map Argument.plain) (as.map Argument.plain) := by
  rw [← mapParts_mapSpans, ← mapParts_mapSpans]
  simp only [plain, spanless, mapSpans, mapParts, Argument.mapSpansAll_eq_map,
    Argument.mapPartsAll_eq_map, unwrapped]

end Expr

namespace Expr.Shaped

variable {ok : Place → Expr → Prop} {e : Expr}

/-- Parentheses where they are needed leave an expression the same. -/
theorem plain_enclosed (h : e.Shaped ok) : e.enclosed.plain = e.plain := by
  have hpart (place : Place) {e : Expr} (ih : e.enclosed.plain = e.plain) :
      (place.enclose (e.mapParts Place.enclose)).plain = e.plain := (plain_enclose place _).trans ih
  have hparts {es : List Expr} (ih : ∀ e ∈ es, e.enclosed.plain = e.plain) :
      (Expr.mapPartsAll Place.enclose es).map plain = es.map plain := by
    rw [mapPartsAll_eq_map, List.map_map]
    exact List.map_congr_left fun e he => hpart .free (ih e he)
  have harguments {as : List Argument} (ih : ∀ a ∈ as, a.value.enclosed.plain = a.value.plain) :
      (Argument.mapPartsAll Place.enclose as).map Argument.plain = as.map Argument.plain := by
    rw [Argument.mapPartsAll_eq_map, List.map_map]
    refine List.map_congr_left fun a ha => ?_
    cases a with
    | positional value => exact congrArg Argument.positional (hpart .value (ih _ ha))
    | keyword s name value => exact congrArg (Argument.keyword default name) (hpart .value (ih _ ha))
  induction h with
  | integer | float | string | boolean | noneLiteral | symbol => rfl
  | list _ _ ih => rw [enclosed, mapParts, plain_list, plain_list, hparts ih]
  | tuple _ _ ih => rw [enclosed, mapParts, plain_tuple, plain_tuple, hparts ih]
  | set _ _ _ ih => rw [enclosed, mapParts, plain_set, plain_set, hparts ih]
  | dict _ _ _ ihk ihv =>
    rw [enclosed, mapParts, plain_dict, plain_dict, mapPartsEntries_eq_map, List.map_map]
    congr 1
    exact List.map_congr_left fun entry he =>
      Prod.ext (hpart .free (ihk entry he)) (hpart .free (ihv entry he))
  | parenthesized _ _ ih => exact hpart .free ih
  | call _ _ _ _ ih iha =>
    rw [enclosed, mapParts, plain_call, plain_call, hpart .callee ih, harguments iha]
  | genericCall _ _ _ _ _ _ _ ih iht iha =>
    rw [enclosed, mapParts, plain_genericCall, plain_genericCall, hpart .object ih, harguments iht,
      harguments iha]
  | member _ _ ih => exact congrArg (Expr.member default · _) (hpart .object ih)
  | subscript _ _ _ _ _ ih ihs =>
    rw [enclosed, mapParts, plain_subscript, plain_subscript, hpart .object ih, hparts ihs]
  | @slice s lower upper step _ _ ih =>
    have hbound {bound : Option Expr} (hbound : bound ∈ [lower, upper, step]) :
        (Expr.mapPartsOpt Place.enclose bound).map plain = bound.map plain := by
      cases bound with
      | none => rfl
      | some e => exact congrArg some (hpart .free (ih _ hbound e rfl))
    rw [enclosed, mapParts, plain_slice, plain_slice, hbound (by simp), hbound (by simp),
      hbound (by simp)]
  | transfer _ _ ih => exact congrArg (Expr.transfer default) (hpart .object ih)
  | unary _ _ ih => exact congrArg (Expr.unary default _) (hpart _ ih)
  | binary _ _ _ _ ihl ihr => exact congrArg₂ (Expr.binary default _) (hpart _ ihl) (hpart _ ihr)
  | comparison _ _ _ _ _ ih ihs =>
    rw [enclosed, mapParts, plain_comparison, plain_comparison, hpart .first ih, mapPartsLinks_eq_map,
      List.map_map]
    congr 1
    exact List.map_congr_left fun link hlink => Prod.ext rfl (hpart .compared (ihs link hlink))
  | conditional _ _ _ _ _ _ iht ihc ihe =>
    rw [enclosed, mapParts, plain_conditional, plain_conditional, hpart .value iht, hpart .value ihc,
      hpart .free ihe]

/-- In parentheses where its place needs them, an expression suits it. -/
theorem enclose (h : e.Shaped Place.Suits) (hslice : e.isSlice = false) {place : Place}
    (hplace : place ≠ .right .primary) :
    (place.enclose e).Shaped Place.Suits ∧ place.Suits (place.enclose e) := by
  unfold Place.enclose
  split
  · next hadmits => exact ⟨h, hadmits, hslice⟩
  · exact ⟨.parenthesized h ⟨rfl, hslice⟩, Place.admits_parenthesized hplace _ _, rfl⟩

/-- With parentheses where they are needed, all parts suit their places. -/
theorem enclosed_suits (h : e.Shaped fun _ e => e.isSlice = false) : e.enclosed.Shaped Place.Suits := by
  have hpart (place : Place) (hplace : place ≠ .right .primary) {e : Expr}
      (ih : e.enclosed.Shaped Place.Suits) (h : e.isSlice = false) :
      (place.enclose (e.mapParts Place.enclose)).Shaped Place.Suits ∧
        place.Suits (place.enclose (e.mapParts Place.enclose)) :=
    ih.enclose ((isSlice_enclosed e).trans h) hplace
  have hvalue {as : List Argument} (ih : ∀ a ∈ as, a.value.enclosed.Shaped Place.Suits)
      (h : ∀ a ∈ as, a.value.isSlice = false) :
      ∀ a ∈ Argument.mapPartsAll Place.enclose as, a.value.Shaped Place.Suits ∧ Place.value.Suits a.value := by
    rw [Argument.mapPartsAll_eq_map]
    refine List.forall_mem_map.mpr fun a ha => ?_
    cases a <;> exact hpart .value (by simp) (ih _ ha) (h _ ha)
  have hparts {es : List Expr} (ih : ∀ e ∈ es, e.enclosed.Shaped Place.Suits)
      (h : ∀ e ∈ es, e.isSlice = false) : ∀ e ∈ Expr.mapPartsAll Place.enclose es,
        e.Shaped Place.Suits ∧ Place.free.Suits e := by
    rw [mapPartsAll_eq_map]
    exact List.forall_mem_map.mpr fun e he => hpart .free (by simp) (ih e he) (h e he)
  induction h with
  | integer => exact .integer
  | float => exact .float
  | string => exact .string
  | boolean => exact .boolean
  | noneLiteral => exact .noneLiteral
  | symbol => exact .symbol
  | list _ hp ih =>
    exact .list (fun e he => (hparts ih hp e he).1) fun e he => (hparts ih hp e he).2
  | tuple _ hp ih =>
    exact .tuple (fun e he => (hparts ih hp e he).1) fun e he => (hparts ih hp e he).2
  | set hne _ hp ih =>
    refine .set ?_ (fun e he => (hparts ih hp e he).1) fun e he => (hparts ih hp e he).2
    simpa [mapPartsAll_eq_map] using hne
  | @dict s entries _ _ hp ihk ihv =>
    have hentries : ∀ entry ∈ mapPartsEntries Place.enclose entries,
        (entry.1.Shaped Place.Suits ∧ Place.free.Suits entry.1) ∧
          entry.2.Shaped Place.Suits ∧ Place.free.Suits entry.2 := by
      rw [mapPartsEntries_eq_map]
      exact List.forall_mem_map.mpr fun entry he =>
        ⟨hpart .free (by simp) (ihk entry he) (hp entry he).1,
          hpart .free (by simp) (ihv entry he) (hp entry he).2⟩
    exact .dict (fun entry he => (hentries entry he).1.1) (fun entry he => (hentries entry he).2.1)
      fun entry he => ⟨(hentries entry he).1.2, (hentries entry he).2.2⟩
  | parenthesized _ hp ih =>
    have h := hpart .free (by simp) ih hp
    exact .parenthesized h.1 h.2
  | call _ hp _ hps ih iha =>
    have h := hpart .callee (by simp) ih hp
    exact .call h.1 h.2 (fun a ha => (hvalue iha hps a ha).1) fun a ha => (hvalue iha hps a ha).2
  | genericCall _ hp hne _ hpt _ hps ih iht iha =>
    have h := hpart .object (by simp) ih hp
    refine .genericCall h.1 h.2 ?_ (fun a ha => (hvalue iht hpt a ha).1)
      (fun a ha => (hvalue iht hpt a ha).2) (fun a ha => (hvalue iha hps a ha).1)
      fun a ha => (hvalue iha hps a ha).2
    simpa [Argument.mapPartsAll_eq_map] using hne
  | member _ hp ih =>
    have h := hpart .object (by simp) ih hp
    exact .member h.1 h.2
  | subscript _ hp hne _ hps ih ihs =>
    have h := hpart .object (by simp) ih hp
    refine .subscript h.1 h.2 (by simpa [mapPartsAll_eq_map] using hne) ?_ ?_
    · rw [mapPartsAll_eq_map]
      exact List.forall_mem_map.mpr fun e he => ihs e he
    · rw [mapPartsAll_eq_map]
      exact List.forall_mem_map.mpr fun e he h => ⟨rfl, h⟩
  | @slice s lower upper step _ hp ih =>
    have hbound (bound : Option Expr) (hbound : bound ∈ [lower, upper, step]) :
        ∀ e ∈ Expr.mapPartsOpt Place.enclose bound, e.Shaped Place.Suits ∧ Place.free.Suits e := by
      cases bound with
      | none => simp [mapPartsOpt]
      | some e => simpa [mapPartsOpt] using hpart .free (by simp) (ih _ hbound e rfl) (hp _ hbound e rfl)
    have hbounds : ∀ bound ∈ [mapPartsOpt Place.enclose lower, mapPartsOpt Place.enclose upper,
        mapPartsOpt Place.enclose step], ∀ e ∈ bound, e.Shaped Place.Suits ∧ Place.free.Suits e := by
      simpa using ⟨hbound lower (by simp), hbound upper (by simp), hbound step (by simp)⟩
    exact .slice (fun bound hb e he => (hbounds bound hb e he).1)
      fun bound hb e he => (hbounds bound hb e he).2
  | transfer _ hp ih =>
    have h := hpart .object (by simp) ih hp
    exact .transfer h.1 h.2
  | @unary s op operand _ hp ih =>
    have h := hpart op.place (by cases op <;> simp [UnaryOp.place]) ih hp
    exact .unary h.1 h.2
  | @binary s op left right _ _ hpl hpr ihl ihr =>
    have hl := hpart op.leftPlace (by cases op <;> simp [BinaryOp.leftPlace]) ihl hpl
    have hr := hpart op.rightPlace (by cases op <;> decide) ihr hpr
    exact .binary hl.1 hr.1 hl.2 hr.2
  | @comparison s first links hne _ _ hp hps ih ihs =>
    have h := hpart .first (by simp) ih hp
    have hlinks : ∀ link ∈ mapPartsLinks Place.enclose links,
        link.2.Shaped Place.Suits ∧ Place.compared.Suits link.2 := by
      rw [mapPartsLinks_eq_map]
      exact List.forall_mem_map.mpr fun link hl => hpart .compared (by simp) (ihs link hl) (hps link hl)
    refine .comparison (by simpa [mapPartsLinks_eq_map] using hne) h.1
      (fun link hl => (hlinks link hl).1) h.2 fun link hl => (hlinks link hl).2
  | conditional _ _ _ hpt hpc hpe iht ihc ihe =>
    have ht := hpart .value (by simp) iht hpt
    have hc := hpart .value (by simp) ihc hpc
    have he := hpart .free (by simp) ihe hpe
    exact .conditional ht.1 hc.1 he.1 ht.2 hc.2 he.2

end Expr.Shaped

/-- An expression that is no slice and has slices only as indices, where they can stand. -/
structure Expr.Proper (e : Expr) : Prop where
  shaped : e.Shaped fun _ e => e.isSlice = false
  whole : e.isSlice = false

def Expr.written (place : Place) (e : Expr) : Expr := place.enclose e.enclosed

namespace Expr.Proper

variable {e : Expr} {place : Place}

theorem written_suits (h : e.Proper) (hplace : place ≠ .right .primary) :
    (e.written place).Shaped Place.Suits ∧ place.Suits (e.written place) :=
  h.shaped.enclosed_suits.enclose ((isSlice_enclosed e).trans h.whole) hplace

theorem plain_written (h : e.Proper) (place : Place) : (e.written place).plain = e.plain :=
  (plain_enclose place _).trans h.shaped.plain_enclosed

end Expr.Proper

/-- What an expression is without spans decides what it is without parentheses too. -/
theorem Expr.plain_eq_of_spanless {e e' : Expr} (h : e'.spanless = e.spanless) : e'.plain = e.plain :=
  congrArg (fun e => (e.mapParts fun _ => unwrapped).unwrapped) h

end Offside
