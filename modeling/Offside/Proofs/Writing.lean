import Offside.Proofs.Reading

namespace Offside

namespace Piece

def introduced {α : Type} (k : Kind) (pieces : α → List Piece) : Option α → List Piece
  | none => []
  | some a => .fixed k :: pieces a

def separated : List (List Piece) → List Piece
  | [] => []
  | item :: items => item ++ items.flatMap fun item => .fixed .comma :: item

end Piece

namespace Cursor

variable {c d e : Cursor} {t : Token} {ps : List Piece} {p : Piece} {k : Kind}

theorem Took.eq_of_nil (h : c.Took [] d) : c = d := by
  obtain ⟨previous, rest, last⟩ := c
  obtain ⟨previous', rest', last'⟩ := d
  obtain ⟨hrest, hlast, hprevious⟩ := h
  simp_all

/-- The first of some tokens, and the others. -/
theorem Took.uncons {ts : List Token} (h : c.Took (t :: ts) d) (hk : t.kind ≠ .eof) :
    c.current = t ∧ c.advance.Took ts d ∧ c.advance.remaining < c.remaining := by
  obtain ⟨previous, rest, last⟩ := c
  obtain ⟨hrest, hlast, hprevious⟩ := h
  obtain rfl : rest = t :: (ts ++ d.rest) := hrest
  have hadvance : advance ⟨previous, t :: (ts ++ d.rest), last⟩ = ⟨some t, ts ++ d.rest, last⟩ := by
    simp [advance, hk]
  rw [hadvance]
  refine ⟨rfl, ⟨rfl, hlast, ?_⟩, Nat.lt_succ_self _⟩
  rw [hprevious, ← List.singleton_append, List.getLast?_append, Option.or_assoc]
  rfl

theorem Read.uncons (h : c.Read (p :: ps) d) : ∃ ts e, p.Spelled ts ∧ c.Took ts e ∧ e.Read ps d := by
  obtain ⟨e, ⟨ts, htook, hspells⟩, hrest⟩ := (show c.Read ([p] ++ ps) d from h).split
  cases hspells with
  | cons hp hnil =>
    cases hnil
    rw [List.append_nil] at htook
    exact ⟨_, e, hp, htook, hrest⟩

theorem Read.eq_of_nil (h : c.Read [] d) : c = d := by
  obtain ⟨ts, htook, hspells⟩ := h
  cases hspells
  exact htook.eq_of_nil

/-- What a cursor does at a token. -/
structure At (c : Cursor) (t : Token) (ps : List Piece) (d : Cursor) : Prop where
  current : c.current = t
  rest : c.advance.Read ps d
  lt : c.advance.remaining < c.remaining
  peeked : c.peek 1 = if c.advance.remaining = 0 then .eof else c.advance.kind

theorem At.kind (h : c.At t ps d) : c.kind = t.kind := congrArg Token.kind h.current

theorem at_one (htook : c.Took [t] e) (hk : t.kind ≠ .eof) (hrest : e.Read ps d) : c.At t ps d := by
  obtain ⟨hcurrent, hadvance, hlt⟩ := htook.uncons hk
  obtain rfl := hadvance.eq_of_nil
  refine ⟨hcurrent, hrest, hlt, ?_⟩
  have hpeek : c.peek 1 = (c.advance.rest.head?.map Token.kind).getD .eof := by
    rw [peek, htook.rest_eq]
    cases c.advance.rest <;> rfl
  rw [hpeek, remaining, Cursor.kind, Cursor.current]
  cases c.advance.rest <;> rfl

/-- The token behind the current one is looked ahead to. -/
theorem At.peek_eq (h : c.At t (p :: ps) d) (hp : p.required = true) : c.peek 1 = c.advance.kind := by
  have hlt := h.rest.remaining_lt (by simp [hp])
  rw [h.peeked, if_neg (by omega)]

/-- At a piece that is one token. -/
theorem Read.at_fixed (h : c.Read (.fixed k :: ps) d) (hk : k ≠ .eof) :
    ∃ t, c.At t ps d ∧ t.kind = k := by
  obtain ⟨ts, e, hp, htook, hrest⟩ := h.uncons
  cases hp with
  | fixed ht => exact ⟨_, at_one htook (ht ▸ hk) hrest, ht⟩

theorem Read.at_transfer (h : c.Read (.transfer :: ps) d) : ∃ t, c.At t ps d ∧ t.kind = .caret := by
  obtain ⟨ts, e, hp, htook, hrest⟩ := h.uncons
  cases hp with
  | transfer ht => exact ⟨_, at_one htook (by simp [ht]) hrest, ht⟩

theorem Read.at_name {text : String} (h : c.Read (.name text :: ps) d) :
    ∃ t, c.At t ps d ∧ t.kind = .identifier ∧ t.text = text := by
  obtain ⟨ts, e, hp, htook, hrest⟩ := h.uncons
  cases hp with
  | name ht htext => exact ⟨_, at_one htook (by simp [ht]) hrest, ht, htext⟩

theorem Read.at_word {text : String} (h : c.Read (.word k text :: ps) d) (hk : k ≠ .eof) :
    ∃ t, c.At t ps d ∧ t.kind = k ∧ t.text = text := by
  obtain ⟨ts, e, hp, htook, hrest⟩ := h.uncons
  cases hp with
  | word ht htext => exact ⟨_, at_one htook (ht ▸ hk) hrest, ht, htext⟩

theorem Read.at_integer {text : String} {value : Option UInt64}
    (h : c.Read (.integer text value :: ps) d) :
    ∃ t, c.At t ps d ∧ t.kind = .integer ∧ t.text = text ∧ Literal.integer? text = value := by
  obtain ⟨ts, e, hp, htook, hrest⟩ := h.uncons
  cases hp with
  | integer ht htext hv => exact ⟨_, at_one htook (by simp [ht]) hrest, ht, htext, hv⟩

theorem Read.at_float {value : Literal.Binary64} (h : c.Read (.float value :: ps) d) :
    ∃ t, c.At t ps d ∧ t.kind = .float ∧ Literal.float? t.text = some value := by
  obtain ⟨ts, e, hp, htook, hrest⟩ := h.uncons
  cases hp with
  | float ht hv => exact ⟨_, at_one htook (by simp [ht]) hrest, ht, hv⟩

theorem Read.kind_strings {value : String} (h : c.Read (.strings value :: ps) d) : c.kind = .string := by
  obtain ⟨ts, e, hp, htook, -⟩ := h.uncons
  cases hp with
  | strings hne hk =>
    obtain ⟨t, ts, rfl⟩ := List.exists_cons_of_ne_nil hne
    rw [kind, current, htook.rest_eq]
    exact hk t List.mem_cons_self

theorem Read.at_optional (h : c.Read (.optional k :: ps) d) (hk : k ≠ .eof) :
    c.Read ps d ∨ ∃ t, c.At t ps d ∧ t.kind = k := by
  obtain ⟨ts, e, hp, htook, hrest⟩ := h.uncons
  cases hp with
  | absent => exact Or.inl (Read.trans ⟨[], htook, .nil⟩ hrest)
  | present ht => exact Or.inr ⟨_, at_one htook (ht ▸ hk) hrest, ht⟩

end Cursor

namespace Rule

variable {α β : Type} {c d : Cursor} {k : Kind} {n : Nat}

section Lists

variable {item : Rule α} {φ : α → β} {pieces : α → List Piece} {stop : Kind → Bool}
  {as : List α}

theorem commaRound_stop (h : c.kind ≠ .comma ∨ c.kind = .comma ∧ stop c.advance.kind = true) :
    commaRound stop item c = .ok none (if c.kind = .comma then c.advance else c) := by
  unfold commaRound
  rcases h with hk | ⟨hk, hstop⟩
  · rw [if_neg hk]
    exact bind_ok (eat_not hk)
  · rw [if_pos hk, bind_ok (eat_ok hk), if_pos rfl, kind_run, if_pos hstop]
    rfl

theorem commaRound_item (hk : c.kind = .comma) (hstop : stop c.advance.kind = false) :
    commaRound stop item c = (some <$> item) c.advance := by
  rw [commaRound, bind_ok (eat_ok hk), if_pos rfl, kind_run, if_neg (by simp [hstop])]

/-- At the tokens of an item, of a list that goes on with a comma or stops, its rule returns the
item, as far as it is seen. -/
def Writes (item : Rule α) (φ : α → β) (pieces : α → List Piece) (stop : Kind → Bool) (n : Nat)
    (a : α) : Prop :=
  ∀ c d : Cursor, c.remaining < n → c.Read (pieces a) d → d.kind = .comma ∨ stop d.kind = true →
    stop c.kind = false ∧ ∃ a', item c = .ok a' d ∧ φ a' = φ a

theorem kind_commaTail {items : List (List Piece)} (h : c.Read (Piece.commaTail items) d) :
    c.kind = .comma ∨ c = d := by
  cases items with
  | nil =>
    rcases h.at_optional (by decide) with h | ⟨t, h, ht⟩
    · exact Or.inr h.eq_of_nil
    · exact Or.inl (h.kind.trans ht)
  | cons ps items =>
    obtain ⟨t, h, ht⟩ := Cursor.Read.at_fixed h (by decide)
    exact Or.inl (h.kind.trans ht)

theorem read_tupleTail {items : List (List Piece)} (h : c.Read (Piece.tupleTail items) d) :
    c.kind = .comma ∧ c.Read (Piece.commaTail items) d := by
  cases items with
  | nil =>
    obtain ⟨t, hat, ht⟩ := Cursor.Read.at_fixed h (by decide)
    exact ⟨hat.kind.trans ht, (show c.Read ([] ++ [.fixed .comma]) d from h).present⟩
  | cons item items =>
    obtain ⟨t, hat, ht⟩ := Cursor.Read.at_fixed h (by decide)
    exact ⟨hat.kind.trans ht, h⟩

theorem commaTail_writes (h : ∀ a ∈ as, Writes item φ pieces stop n a) (hn : c.remaining ≤ n)
    (hread : c.Read (Piece.commaTail (as.map pieces)) d) (hstop : stop d.kind = true)
    (hcomma : d.kind ≠ .comma) :
    ∃ as', Rule.commaTail stop item c = .ok as' d ∧ as'.map φ = as.map φ := by
  induction as generalizing c with
  | nil =>
    rcases hread.at_optional (by decide) with hread | ⟨t, hat, ht⟩
    · obtain rfl := hread.eq_of_nil
      exact ⟨[], many_none ((commaRound_stop (Or.inl hcomma)).trans (by rw [if_neg hcomma])), rfl⟩
    · obtain rfl := hat.rest.eq_of_nil
      have hk := hat.kind.trans ht
      exact ⟨[], many_none ((commaRound_stop (Or.inr ⟨hk, hstop⟩)).trans (by rw [if_pos hk])), rfl⟩
  | cons a as ih =>
    obtain ⟨t, hat, ht⟩ := Cursor.Read.at_fixed hread (by decide)
    obtain ⟨e, hitem, hrest⟩ := hat.rest.split
    have hfollow : e.kind = .comma ∨ stop e.kind = true :=
      (kind_commaTail hrest).imp_right fun (h : e = d) => h ▸ hstop
    have hlt := hat.lt
    obtain ⟨hstart, a', ha, hφ⟩ := h a List.mem_cons_self c.advance e (by omega) hitem hfollow
    have hle := hitem.remaining_le
    obtain ⟨as', has, hφs⟩ := ih (fun b hb => h b (List.mem_cons_of_mem _ hb)) (by omega) hrest
    refine ⟨a' :: as', many_cons ?_ (by omega) has, by rw [List.map_cons, List.map_cons, hφ, hφs]⟩
    rw [commaRound_item (hat.kind.trans ht) hstart]
    exact bind_ok ha

theorem commaList_writes (h : ∀ a ∈ as, Writes item φ pieces stop n a) (hne : as ≠ [])
    (hn : c.remaining < n) (hread : c.Read (Piece.commaList (as.map pieces)) d)
    (hstop : stop d.kind = true) (hcomma : d.kind ≠ .comma) :
    stop c.kind = false ∧ ∃ as', Rule.commaList stop item c = .ok as' d ∧ as'.map φ = as.map φ := by
  cases as with
  | nil => exact absurd rfl hne
  | cons a as =>
    obtain ⟨e, hitem, hrest⟩ := hread.split
    have hfollow : e.kind = .comma ∨ stop e.kind = true :=
      (kind_commaTail hrest).imp_right fun (h : e = d) => h ▸ hstop
    obtain ⟨hstart, a', ha, hφ⟩ := h a List.mem_cons_self c e hn hitem hfollow
    have hle := hitem.remaining_le
    obtain ⟨as', has, hφs⟩ :=
      commaTail_writes (fun b hb => h b (List.mem_cons_of_mem _ hb)) (by omega) hrest hstop hcomma
    refine ⟨hstart, a' :: as', ?_, by rw [List.map_cons, List.map_cons, hφ, hφs]⟩
    rw [Rule.commaList, bind_ok ha, bind_ok has]
    rfl

theorem listUpTo_writes {close : Kind} (h : ∀ a ∈ as, Writes item φ pieces (· == close) n a)
    (hn : c.remaining < n) (hread : c.Read (Piece.commaList (as.map pieces)) d) (hd : d.kind = close)
    (hcomma : close ≠ .comma) :
    ∃ as', Rule.listUpTo close item c = .ok as' d ∧ as'.map φ = as.map φ := by
  change ∃ as', (if c.kind = close then _ else _ : Rule (List α)) c = .ok as' d ∧ _
  by_cases hne : as = []
  · subst hne
    obtain rfl := hread.eq_of_nil
    rw [if_pos hd]
    exact ⟨[], rfl, rfl⟩
  · obtain ⟨hstart, as', has, hφ⟩ := commaList_writes h hne hn hread (by simp [hd]) (hd ▸ hcomma)
    rw [if_neg (by simpa using hstart)]
    exact ⟨as', has, hφ⟩

theorem kind_introduced {o : Option α} (h : c.Read (Piece.introduced k pieces o) d) (hk : k ≠ .eof) :
    c.kind = k ∨ c = d := by
  cases o with
  | none => exact Or.inr h.eq_of_nil
  | some a =>
    obtain ⟨t, h, ht⟩ := Cursor.Read.at_fixed h hk
    exact Or.inl (h.kind.trans ht)

/-- A value that may be missing is read where it stands and not missed where it does not. -/
theorem introduced_ok {o : Option α} (hread : c.Read (Piece.introduced k pieces o) d) (hk : k ≠ .eof)
    (hd : d.kind ≠ k)
    (hvalue : ∀ a ∈ o, ∀ c : Cursor, c.Read (pieces a) d → ∃ a', item c = .ok a' d ∧ φ a' = φ a) :
    ∃ o', Rule.introduced k item c = .ok o' d ∧ o'.map φ = o.map φ := by
  cases o with
  | none =>
    obtain rfl := hread.eq_of_nil
    exact ⟨none, bind_ok (eat_not hd), rfl⟩
  | some a =>
    obtain ⟨t, hat, ht⟩ := Cursor.Read.at_fixed hread hk
    obtain ⟨a', ha, hφ⟩ := hvalue a rfl _ hat.rest
    exact ⟨some a', (bind_ok (eat_ok (hat.kind.trans ht))).trans (bind_ok ha), congrArg some hφ⟩

/-- A list that has to go on behind each comma. -/
theorem separated_ok (hne : as ≠ []) (hread : c.Read (Piece.separated (as.map pieces)) d)
    (hcomma : d.kind ≠ .comma)
    (hitem : ∀ a ∈ as, ∀ c e : Cursor, c.Read (pieces a) e → e.kind = .comma ∨ e = d →
      ∃ a', item c = .ok a' e ∧ φ a' = φ a) :
    ∃ as', Rule.commaList (fun _ => false) item c = .ok as' d ∧ as'.map φ = as.map φ := by
  have htail (as : List α) (c : Cursor)
      (hread : c.Read ((as.map pieces).flatMap fun item => .fixed .comma :: item) d)
      (hitem : ∀ a ∈ as, ∀ c e : Cursor, c.Read (pieces a) e → e.kind = .comma ∨ e = d →
        ∃ a', item c = .ok a' e ∧ φ a' = φ a) :
      (c.kind = .comma ∨ c = d) ∧
        ∃ as', Rule.commaTail (fun _ => false) item c = .ok as' d ∧ as'.map φ = as.map φ := by
    induction as generalizing c with
    | nil =>
      obtain rfl := hread.eq_of_nil
      refine ⟨Or.inr rfl, [], many_none ?_, rfl⟩
      rw [commaRound_stop (Or.inl hcomma), if_neg hcomma]
    | cons a as ih =>
      obtain ⟨t, hat, ht⟩ := Cursor.Read.at_fixed hread (by decide)
      obtain ⟨e, he, hrest⟩ := hat.rest.split
      obtain ⟨hfollow, as', has, hφs⟩ := ih e hrest fun b hb => hitem b (List.mem_cons_of_mem _ hb)
      obtain ⟨a', ha, hφ⟩ := hitem a List.mem_cons_self _ _ he hfollow
      have hlt := Nat.lt_of_le_of_lt he.remaining_le hat.lt
      refine ⟨Or.inl (hat.kind.trans ht), a' :: as', many_cons ?_ hlt has,
        by rw [List.map_cons, List.map_cons, hφ, hφs]⟩
      rw [commaRound_item (hat.kind.trans ht) rfl]
      exact bind_ok ha
  obtain ⟨a, as, rfl⟩ := List.exists_cons_of_ne_nil hne
  obtain ⟨e, he, hrest⟩ := hread.split
  obtain ⟨hfollow, as', has, hφs⟩ := htail as e hrest fun b hb => hitem b (List.mem_cons_of_mem _ hb)
  obtain ⟨a', ha, hφ⟩ := hitem a List.mem_cons_self _ _ he hfollow
  refine ⟨a' :: as', ?_, by rw [List.map_cons, List.map_cons, hφ, hφs]⟩
  rw [Rule.commaList, bind_ok ha, bind_ok has]
  rfl

end Lists

end Rule

end Offside
