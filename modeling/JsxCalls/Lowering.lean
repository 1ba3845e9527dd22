import JsxCalls.Return.Segment

/-!
# Lowering

Lowering a source masks its expressions, converts its return statements and restores the
expressions, in this order: a `>` inside an expression can then not end a tag.
-/

namespace JsxCalls

/-- A source in which markup was lowered to calls. -/
structure Lowered where
  /-- The new source. -/
  output : Text
  /-- How many return statements were converted. -/
  statements : Nat
  /-- How many expressions were masked. -/
  expressions : Nat
  /-- The new source differs from the old one. -/
  changed : Bool
deriving DecidableEq, Repr

/-- Lowers the markup in the return statements of a source. -/
def lower (style : CallStyle) (source : Text) : Lowered :=
  let masked := mask source
  let converted := Converter.convertReturns ⟨style, some masked.table⟩ masked.text
  let output := masked.table.restore converted.text
  { output
    statements := converted.count
    expressions := masked.table.entries.length
    changed := output ≠ source }

section Changed

variable {style : CallStyle} {source : Text}

theorem lower_changed_iff :
    (lower style source).changed = true ↔ (lower style source).output ≠ source :=
  decide_eq_true_iff

theorem lower_unchanged_iff :
    (lower style source).changed = false ↔ (lower style source).output = source := by
  simp [lower]

end Changed

/-- A way to lower the markup of source files. -/
structure Strategy where
  /-- What the strategy is called. -/
  name : Text
  /-- The extensions of the files it is meant for. -/
  extensions : List Text
  /-- How a source is lowered. -/
  lower : Text → Lowered

/-- The extensions of files that may hold markup. -/
def markupExtensions : List Text :=
  ["tsx".toList, "jsx".toList]

/-- Lowering to calls that create elements. -/
def Strategy.createElement (style : CallStyle) : Strategy where
  name := "create-element".toList
  extensions := markupExtensions
  lower := JsxCalls.lower style

end JsxCalls
