import Offside.Proofs.Document.Append
import Offside.Proofs.Nesting.Stmt
import Offside.Proofs.Scan.Order

namespace Offside.Document

open Scan Grammar Region

/-- The tokens of a text are in order and end with a mark at its end. -/
theorem exists_tokens (cfg : Config) {source : String}
    (hsize : Text.byteSize source.toList < UInt32.size) :
    ∃ ts, (scan cfg source).tokens = ts ++ [.layout .eof (Span.ofNat (Text.byteSize source.toList)
      (Text.byteSize source.toList))] ∧ InOrder (scan cfg source).tokens := by
  obtain ⟨e, u, h, hr, -⟩ := exists_end cfg (.start source)
  have hlimit : (State.start source).limit < UInt32.size := by simpa [State.limit, State.start] using hsize
  have htokens : (scan cfg source).tokens =
      e.tokens ++ ((finish u).tokens ++ [.layout .eof (Span.ofNat u.pos u.pos)]) := by
    rw [scan_of_reaches h hr]
    rfl
  rw [htokens, ← h.pos_eq hr]
  refine ⟨e.tokens ++ (finish u).tokens, (List.append_assoc _ _ _).symm, h.inOrder hlimit ?_⟩
  exact List.forall_mem_append.mpr ⟨finish_span u, List.forall_mem_singleton.mpr rfl⟩

/-- Whatever a text holds, the spans in its document are nested. Each node, at every depth, lies in
the text and in the node around it, and ends before the next one there starts. -/
theorem parse_nested (cfg : Config) (source : String)
    (hsize : Text.byteSize source.toList < UInt32.size) :
    (parse cfg source).region.span = Span.ofNat 0 (Text.byteSize source.toList) ∧
      (parse cfg source).region.Nested := by
  obtain ⟨ts, htokens, horder⟩ := exists_tokens cfg hsize
  refine ⟨rfl, ?_⟩
  rw [htokens] at horder
  rw [parse, htokens]
  exact parse_laid horder rfl

/-- The error mark of a broken line goes up to the statement behind it. -/
theorem parse_nested_broken : Text.byteSize "y =\nz\n".toList < UInt32.size ∧
    (parse {} "y =\nz\n").body.map Stmt.span = [⟨0, 4⟩, ⟨4, 5⟩] ∧
    (parse {} "y =\nz\n").region.span = ⟨0, 6⟩ ∧ (parse {} "y =\nz\n").region.Nested := by
  have hsize : Text.byteSize "y =\nz\n".toList < UInt32.size := by decide
  have hnested := parse_nested {} "y =\nz\n" hsize
  exact ⟨hsize, by decide +kernel, hnested⟩

end Offside.Document
