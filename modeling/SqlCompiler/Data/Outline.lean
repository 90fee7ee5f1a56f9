import SqlCompiler.Data.Shape

/-!
# Outlines of shapes

The outline of a type gives its name, its fields and which of them must be there, and the names of
all types that it refers to, directly or through others.
-/

namespace SqlCompiler.Data

/-- What a type looks like from outside. -/
structure Outline where
  /-- The type's name. -/
  title : String
  /-- The names of its fields, sorted. -/
  properties : List String
  /-- The names of the fields that must be there, in order. -/
  required : List String
  /-- The names of the types that it refers to, sorted. -/
  references : List String

/-- The types in a shape. -/
def Shape.references {ν : Type} : Shape ν → List ν
  | .list item => [item]
  | .named type => [type]
  | _ => []

/-- The types in a variant's content. -/
def Content.references {ν : Type} : Content ν → List ν
  | .nothing => []
  | .one shape _ => shape.references
  | .fields fs => fs.flatMap (·.shape.references)

/-- The types in a definition. -/
def Definition.references {ν : Type} : Definition ν → List ν
  | .record _ fields => fields.flatMap (·.shape.references)
  | .variants _ cases => cases.flatMap (·.content.references)

/-- The types that can be reached from `frontier` in `fuel` steps, added to those already seen. -/
def reach {ν : Type} [DecidableEq ν] (define : ν → Definition ν) :
    Nat → List ν → List ν → List ν
  | 0, seen, _ => seen
  | _, seen, [] => seen
  | fuel + 1, seen, t :: frontier =>
    if t ∈ seen then reach define fuel seen frontier
    else reach define fuel (t :: seen) ((define t).references ++ frontier)

/-- Names in ascending order. -/
def sortNames (names : List String) : List String :=
  names.mergeSort fun a b => !(b < a)

/-- The fields of a type; a type with variants has none. -/
def Definition.fields {ν : Type} : Definition ν → List (FieldShape ν)
  | .record _ fields => fields
  | .variants _ _ => []

/-- The outline of a type. `fuel` bounds the references that are followed. -/
def outline {ν : Type} [DecidableEq ν] (define : ν → Definition ν) (fuel : Nat) (type : ν) :
    Outline :=
  let fields := (define type).fields
  { title := (define type).name
    properties := sortNames (fields.map (·.name))
    required :=
      (fields.filter fun f => !f.optional && f.default?.isNone).map (·.name)
    references :=
      sortNames ((reach define fuel [] (define type).references).map fun t => (define t).name) }

/-- The outline as data. -/
def Outline.view (o : Outline) : Value :=
  .record "Outline"
    [("title", .text o.title), ("properties", .texts o.properties),
     ("required", .texts o.required), ("$defs", .texts o.references)]

end SqlCompiler.Data
