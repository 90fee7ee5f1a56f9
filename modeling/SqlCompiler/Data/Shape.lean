import SqlCompiler.Data.Value

/-!
# Shapes

A shape describes a type of tagged data: which records and variants there are, which fields they
have, and what stands for a field that is left out. Types refer to each other by name, so a shape
may be recursive.
-/

namespace SqlCompiler.Data

/-- What stands in one place of the data; `ν` names the types. -/
inductive Shape (ν : Type) where
  | bool
  /-- A signed 64-bit integer. -/
  | integer
  /-- An unsigned 64-bit integer. -/
  | size
  | float
  | text
  /-- A list of values of a named type. -/
  | list (item : ν)
  /-- A value of a named type. -/
  | named (type : ν)

/-- A field of a record or variant. -/
structure FieldShape (ν : Type) where
  /-- The field's name. -/
  name : String
  /-- What the field holds. -/
  shape : Shape ν
  /-- The field may be null. -/
  optional : Bool := false
  /-- What stands for a field that is left out, if it may be left out anywhere. An optional field
  without one may still be left out of an object. -/
  default? : Option Value := none

/-- What a variant holds. -/
inductive Content (ν : Type) where
  | nothing
  | one (shape : Shape ν) (optional : Bool)
  | fields (fields : List (FieldShape ν))

/-- One case of a type with variants. -/
structure Case (ν : Type) where
  /-- The variant's name. -/
  name : String
  /-- What it holds. -/
  content : Content ν

/-- The definition of a named type. -/
inductive Definition (ν : Type) where
  | record (name : String) (fields : List (FieldShape ν))
  | variants (name : String) (cases : List (Case ν))

/-- The name of the type. -/
def Definition.name {ν : Type} : Definition ν → String
  | .record name _ => name
  | .variants name _ => name

end SqlCompiler.Data
