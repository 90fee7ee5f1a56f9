import SqlCompiler.Sql.Identifier
import SqlCompiler.Target.Options

/-!
# Pieces of SQL

A statement is emitted as a list of pieces: fixed text of the grammar, the caller's own text,
identifiers, strings and parameters. The text of a statement and the list of its bound parameters
are two views of the same pieces, so the placeholders and the parameters agree by construction.

Pieces are what `push` and `add_bind` of the collector are given, and `Piece.compiled` is its
`finish`.
-/

namespace SqlCompiler

/-- A piece of a statement. -/
inductive Piece where
  /-- Keywords, operators, punctuation and numbers. -/
  | sql (text : String)
  /-- The caller's text, written as it is. -/
  | verbatim (text : String)
  /-- An identifier, quoted where it must be. -/
  | ident (name : String)
  /-- A string literal. -/
  | string (content : String)
  /-- A parameter, written as a placeholder. -/
  | param (name : String) (value : Option Literal)
  deriving DecidableEq

/-- A parameter with the placeholder that stands for it. -/
structure BoundParam where
  /-- The placeholder. -/
  marker : String
  /-- The parameter's name. -/
  name : String
  /-- The value to bind, if it is known. -/
  value : Option Literal
  deriving DecidableEq

/-- A compiled statement. -/
structure Compiled where
  /-- The text. -/
  sql : String
  /-- The parameters in the order of their placeholders. -/
  params : List BoundParam
  deriving DecidableEq

/-- The view of a bound parameter. -/
def BoundParam.view (p : BoundParam) : Data.Value :=
  .record "BoundParam"
    [("marker", .text p.marker), ("name", .text p.name),
     ("value", .option (p.value.map Literal.view))]

/-- The view of a compiled statement. -/
def Compiled.view (c : Compiled) : Data.Value :=
  .record "CompiledSql" [("sql", .text c.sql), ("params", .list (c.params.map BoundParam.view))]

namespace Piece

/-- The text of a piece; a parameter stands at `position` among the parameters. -/
def text (style : ParamStyle) (position : Nat) : Piece → String
  | .sql text => text
  | .verbatim text => text
  | .ident name => Identifier.text name
  | .string content => Text.doubled '\'' content
  | .param _ _ => style.marker position

/-- The texts of pieces; the next parameter stands at `position`. -/
def texts (style : ParamStyle) : Nat → List Piece → List String
  | _, [] => []
  | position, p :: ps =>
    match p with
    | .param _ _ => p.text style position :: texts style (position + 1) ps
    | _ => p.text style position :: texts style position ps

/-- The bound parameters of pieces; the next one stands at `position`. -/
def params (style : ParamStyle) : Nat → List Piece → List BoundParam
  | _, [] => []
  | position, .param name value :: ps =>
    ⟨style.marker position, name, value⟩ :: params style (position + 1) ps
  | position, _ :: ps => params style position ps

/-- The number of parameters among pieces. -/
def paramCount : List Piece → Nat
  | [] => 0
  | .param _ _ :: ps => paramCount ps + 1
  | _ :: ps => paramCount ps

/-- Each parameter is bound once. -/
@[simp]
theorem length_params (style : ParamStyle) (position : Nat) (ps : List Piece) :
    (params style position ps).length = paramCount ps := by
  induction ps generalizing position with
  | nil => rfl
  | cons p ps ih => cases p <;> simp [params, paramCount, ih]

/-- The texts of what follows are numbered on from what stands before. -/
theorem texts_append (style : ParamStyle) (position : Nat) (ps qs : List Piece) :
    texts style position (ps ++ qs)
      = texts style position ps ++ texts style (position + paramCount ps) qs := by
  induction ps generalizing position with
  | nil => rfl
  | cons p ps ih =>
    cases p <;> simp [texts, paramCount, ih, Nat.add_assoc, Nat.add_comm 1]

/-- The parameters of what follows are numbered on from what stands before. -/
theorem params_append (style : ParamStyle) (position : Nat) (ps qs : List Piece) :
    params style position (ps ++ qs)
      = params style position ps ++ params style (position + paramCount ps) qs := by
  induction ps generalizing position with
  | nil => rfl
  | cons p ps ih =>
    cases p <;> simp [params, paramCount, ih, Nat.add_assoc, Nat.add_comm 1]

/-- The text of a list of pieces. -/
def render (style : ParamStyle) (ps : List Piece) : String :=
  String.join (texts style 1 ps)

/-- The statement that pieces make up. -/
def compiled (style : ParamStyle) (ps : List Piece) : Compiled :=
  ⟨render style ps, params style 1 ps⟩

end Piece

end SqlCompiler
