import Offside.Config
import Offside.Layout.Snapshot

namespace Offside

inductive Datum where
  | null
  | bool (value : Bool)
  | integer (value : Int)
  /-- A number that is not written as an integer. -/
  | fraction
  | text (value : String)
  | list (items : List Datum)
  | record (fields : List (String × Datum))
  deriving Inhabited

namespace Datum

def word? : Datum → Option Nat
  | integer n => if 0 ≤ n ∧ n.toNat < UInt32.size then some n.toNat else none
  | _ => none

def words? : Datum → Option (List Nat)
  | list items => items.mapM word?
  | _ => none

def name? : Datum → Option String
  | text s => some s
  | record [(s, null)] => some s
  | _ => none

def conventions? (d : Datum) : Option ConventionSet := d.name?.bind ConventionSet.ofName?

def longQuote? (d : Datum) : Option Layout.LongQuote := d.name?.bind Layout.LongQuote.ofName?

def openString? : Datum → Option (Option Layout.LongQuote)
  | null => some none
  | d => d.longQuote?.map some

def orDefault {α : Type} (field : Option Datum) (read : Datum → Option α) (value : α) : Option α :=
  match field with
  | none => some value
  | some d => read d

def config? : Datum → Option Config
  | record fields => do
    let tabWidth ← orDefault (fields.lookup "tab_width") word? 8
    let conventions ← orDefault (fields.lookup "conventions") conventions? .both
    return { tabWidth, conventions }
  | list items =>
    if items.length ≤ 2 then do
      let tabWidth ← orDefault items[0]? word? 8
      let conventions ← orDefault items[1]? conventions? .both
      return { tabWidth, conventions }
    else none
  | _ => none

/-- A snapshot. Its levels are given outermost first; only the string may be absent. -/
def snapshot? : Datum → Option Layout.Snapshot
  | record fields => do
    let levels ← (← fields.lookup "indent_stack").words?
    let depth ← (← fields.lookup "bracket_depth").word?
    let string ← orDefault (fields.lookup "string") openString? none
    return { levels := levels.reverse, depth, string }
  | list [levels, depth, string] => do
    return { levels := (← levels.words?).reverse, depth := ← depth.word?,
             string := ← string.openString? }
  | _ => none

end Datum

end Offside
