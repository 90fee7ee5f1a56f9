import SqlCompiler.Report.Trace
import SqlCompiler.Sql.Piece

/-!
# Emissions

An emission is a traced list of pieces. Emissions are put one after the other with `++`: the first
fault ends the whole, and what follows it leaves no notes.

The collector's `push` appends a piece (`piece`).
-/

namespace SqlCompiler

/-- Pieces of SQL, with the notes made on the way, or a fault. -/
abbrev Emission := Traced (List Piece)

namespace Emission

/-- The pieces of `a`, then those of `b`. -/
def append (a b : Emission) : Emission :=
  a.bind fun p => b.bind fun q => .ok (p ++ q)

instance : Append Emission where
  append := append

/-- No pieces. -/
def empty : Emission :=
  .ok []

/-- Both emissions are made, in order. -/
theorem append_eq_bind (a b : Emission) :
    a ++ b = Traced.bind a fun p => Traced.bind b fun q => .ok (p ++ q) :=
  rfl

/-- No pieces add nothing in front. -/
@[simp]
theorem empty_append (e : Emission) : empty ++ e = e := by
  rw [append_eq_bind, empty, Traced.ok_bind]
  exact Traced.bind_ok e

/-- No pieces add nothing behind. -/
@[simp]
theorem append_empty (e : Emission) : e ++ empty = e := by
  rw [append_eq_bind, empty]
  simp only [Traced.ok_bind, List.append_nil]
  exact Traced.bind_ok e

/-- Emissions may be grouped in any way. -/
theorem append_assoc (a b c : Emission) : a ++ b ++ c = a ++ (b ++ c) := by
  simp only [append_eq_bind, Traced.bind_assoc, Traced.ok_bind, List.append_assoc]

/-- One piece. -/
def piece (p : Piece) : Emission :=
  .ok [p]

/-- Fixed text of the grammar. -/
def sql (text : String) : Emission :=
  piece (.sql text)

/-- The caller's own text. -/
def verbatim (text : String) : Emission :=
  piece (.verbatim text)

/-- An identifier. -/
def ident (name : String) : Emission :=
  piece (.ident name)

/-- A note without pieces. -/
def note (n : Note) : Emission :=
  ⟨[n], .ok []⟩

/-- A fault. -/
def fail (f : Fault) : Emission :=
  Traced.fail f

/-- An emission in parentheses. -/
def parens (e : Emission) : Emission :=
  sql "(" ++ e ++ sql ")"

/-- Emissions with a separator between them. -/
def join (separator : String) : List Emission → Emission
  | [] => empty
  | [e] => e
  | e :: es => e ++ (sql separator ++ join separator es)

/-- Items after a keyword; nothing if there are none. -/
def clause (word separator : String) (items : List Emission) : Emission :=
  if items.isEmpty then empty else sql word ++ join separator items

end Emission

end SqlCompiler
