import SqlCompiler.Json.Writer
import SqlCompiler.Text.Quoted

/-!
# Tagged data

A `Value` is a piece of data with the names of its record types, fields and variants. The statement
tree, the options, the compiled result and the diagnostics all have a view as a `Value`, and every
generic text is a function of it: JSON (`Value.document`), and the form that messages and notes show
(`Value.inspect`, `Value.inspectLines`).
-/

namespace SqlCompiler.Data

/-- Data with its names. -/
inductive Value where
  | bool (b : Bool)
  | int (n : Int)
  | float (x : Binary64)
  | text (s : String)
  /-- An optional value that is absent. -/
  | none
  /-- An optional value that is present. -/
  | some (v : Value)
  | list (items : List Value)
  /-- A record, by the name of its type. -/
  | record (name : String) (fields : List (String × Value))
  /-- A variant without content. -/
  | variant (name : String)
  /-- A variant that holds one value. -/
  | wrapped (name : String) (content : Value)
  /-- A variant with fields. -/
  | fielded (name : String) (fields : List (String × Value))

/-- Floats in messages and in SQL text: positional from `1e-4` up to `1e16`. -/
def inspectLayout : Layout :=
  { least := -4, beyond := 16, plus := .absent, tie := .up }

/-- Floats in JSON: positional from `1e-5` up to `1e16`, a sign before every exponent. -/
def jsonLayout : Layout :=
  { least := -5, beyond := 16, plus := .plus, tie := .toEven }

namespace Value

/-- A list of texts. -/
def texts (items : List String) : Value :=
  .list (items.map .text)

/-- An optional value. -/
def option (v : Option Value) : Value :=
  match v with
  | Option.none => .none
  | Option.some v => .some v

end Value

/-! ## JSON -/

mutual

/-- The JSON form: a variant is its name, or an object whose one key is its name; an optional value
is itself or null; a float that is not finite is null. -/
def Value.document : Value → Json.Document
  | .bool b => .bool b
  | .int n => .number (.ofInt n)
  | .float x => if x.isFinite then .number (jsonLayout.numeral x) else .null
  | .text s => .string (Option.some s)
  | .none => .null
  | .some v => v.document
  | .list items => .array (documents items) true
  | .record _ fields => .object (members fields) true
  | .variant name => .string (Option.some name)
  | .wrapped name content => .object [⟨some name, content.document⟩] true
  | .fielded name fields => .object [⟨some name, .object (members fields) true⟩] true

/-- The JSON forms of items. -/
def documents : List Value → List Json.Document
  | [] => []
  | v :: vs => v.document :: documents vs

/-- The JSON members of fields. -/
def members : List (String × Value) → List Json.Member
  | [] => []
  | (n, v) :: fs => ⟨some n, v.document⟩ :: members fs

end

/-- The compact JSON text. -/
def Value.json (v : Value) : String :=
  v.document.text

/-- The indented JSON text. -/
def Value.jsonLines (v : Value) : String :=
  v.document.pretty

/-! ## Inspection -/

/-- Texts with commas between them. -/
def commas (items : List String) : String :=
  ", ".intercalate items

/-- Named fields between braces; no braces if there are none. -/
def braced (name : String) (fields : List String) : String :=
  if fields.isEmpty then name else name ++ " \x7b " ++ commas fields ++ " \x7d"

mutual

/-- The form that messages show, on one line. -/
def Value.inspect : Value → String
  | .bool b => if b then "true" else "false"
  | .int n => toString n
  | .float x => inspectLayout.text x
  | .text s => Text.escaped s
  | .none => "None"
  | .some v => "Some(" ++ v.inspect ++ ")"
  | .list items => "[" ++ commas (inspectItems items) ++ "]"
  | .record name fields => braced name (inspectFields fields)
  | .variant name => name
  | .wrapped name content => name ++ "(" ++ content.inspect ++ ")"
  | .fielded name fields => braced name (inspectFields fields)

/-- The texts of items. -/
def inspectItems : List Value → List String
  | [] => []
  | v :: vs => v.inspect :: inspectItems vs

/-- The texts of named fields. -/
def inspectFields : List (String × Value) → List String
  | [] => []
  | (n, v) :: fs => (n ++ ": " ++ v.inspect) :: inspectFields fs

end

/-- The indentation of a level: four blanks. -/
def indent (level : Nat) : String :=
  String.ofList (List.replicate (4 * level) ' ')

/-- Items between brackets, each on a line of its own with a comma after it. -/
def stacked (opening closing : String) (level : Nat) (items : List String) : String :=
  if items.isEmpty then opening ++ closing
  else
    opening ++ "\n" ++ String.join (items.map fun i => indent (level + 1) ++ i ++ ",\n")
      ++ indent level ++ closing

/-- Named fields between braces, each on a line of its own; no braces if there are none. -/
def stackedFields (name : String) (level : Nat) (fields : List String) : String :=
  if fields.isEmpty then name else stacked (name ++ " \x7b") "\x7d" level fields

mutual

/-- The form that notes show: every item and field on a line of its own. -/
def Value.inspectAt (level : Nat) : Value → String
  | .some v => stacked "Some(" ")" level [v.inspectAt (level + 1)]
  | .list items => stacked "[" "]" level (inspectItemsAt (level + 1) items)
  | .record name fields => stackedFields name level (inspectFieldsAt (level + 1) fields)
  | .wrapped name content => stacked (name ++ "(") ")" level [content.inspectAt (level + 1)]
  | .fielded name fields => stackedFields name level (inspectFieldsAt (level + 1) fields)
  | v => v.inspect

/-- The texts of items at a level. -/
def inspectItemsAt (level : Nat) : List Value → List String
  | [] => []
  | v :: vs => v.inspectAt level :: inspectItemsAt level vs

/-- The texts of named fields at a level. -/
def inspectFieldsAt (level : Nat) : List (String × Value) → List String
  | [] => []
  | (n, v) :: fs => (n ++ ": " ++ v.inspectAt level) :: inspectFieldsAt level fs

end

/-- The form that notes show. -/
def Value.inspectLines (v : Value) : String :=
  v.inspectAt 0

/-! ## Equality -/

mutual

/-- The same data, where floats are compared as numbers: a NaN differs from itself. -/
def Value.same : Value → Value → Bool
  | .bool a, .bool b => a == b
  | .int a, .int b => a == b
  | .float a, .float b => a.numericEq b
  | .text a, .text b => a == b
  | .none, .none => true
  | .some a, .some b => a.same b
  | .list a, .list b => sameItems a b
  | .record n a, .record m b => n == m && sameFields a b
  | .variant a, .variant b => a == b
  | .wrapped n a, .wrapped m b => n == m && a.same b
  | .fielded n a, .fielded m b => n == m && sameFields a b
  | _, _ => false

/-- The same items in the same order. -/
def sameItems : List Value → List Value → Bool
  | [], [] => true
  | a :: as, b :: bs => a.same b && sameItems as bs
  | _, _ => false

/-- The same fields in the same order. -/
def sameFields : List (String × Value) → List (String × Value) → Bool
  | [], [] => true
  | (n, a) :: as, (m, b) :: bs => n == m && a.same b && sameFields as bs
  | _, _ => false

end

end SqlCompiler.Data
