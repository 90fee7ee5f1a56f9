import SqlCompiler.Data.Reading
import SqlCompiler.Format.Schema

/-!
# Reading and writing the exchange format

Each type is read from a JSON document through its shape, and written as the JSON form of its view.
Text that follows the document is a fault of the text.
-/

namespace SqlCompiler.Format

open Data

/-- Reads a document as a type, and takes the result out of its view. A value that has been read by
its shape is a view, so the last step does not fail. -/
def ofDocument {α : Type} (type : TypeName) (ofView? : Value → Option α) (d : Json.Document) :
    Except ReadError α := do
  let v ← read define maxDepth (.shape (.named type)) d
  match ofView? v with
  | some a => return a
  | none => throw .malformed

/-- Reads a text as a type. -/
def ofText {α : Type} (type : TypeName) (ofView? : Value → Option α) (text : String) :
    Except ReadError α := do
  let p := Json.Document.parse text.toList
  let a ← ofDocument type ofView? p.root
  requireSound p.alone
  return a

end SqlCompiler.Format

namespace SqlCompiler

open Data (ReadError)

/-- Reads a statement. -/
def Statement.ofJson (text : String) : Except ReadError Statement :=
  Format.ofText .statement Statement.ofView? text

/-- Writes a statement. -/
def Statement.toJson (s : Statement) : String :=
  s.view.json

/-- Reads options. -/
def Options.ofJson (text : String) : Except ReadError Options :=
  Format.ofText .options Options.ofView? text

/-- Writes options. -/
def Options.toJson (o : Options) : String :=
  o.view.json

end SqlCompiler
