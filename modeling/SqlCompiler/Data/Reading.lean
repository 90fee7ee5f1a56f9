import SqlCompiler.Data.Shape

/-!
# Reading data by its shape

`read` takes a JSON document apart by a shape. Faults are found in the order of the text, whether
they are faults of the text or of the data: a missing field shows where its object ends, a repeated
field and an unknown variant at their names. A record may also be written as the array of its
fields. At most `maxDepth` arrays and objects that the shape knows may stand inside each other;
fields that the shape does not know are skipped.
-/

namespace SqlCompiler.Data

/-- What stood in the text where something else was wanted. -/
inductive Found where
  | null
  | bool (b : Bool)
  | integer (n : Int)
  | float (x : Binary64)
  | text (s : String)
  | sequence
  | map
  /-- The bare name of a variant. -/
  | unitVariant

/-- The words for what was found. -/
def Found.message : Found → String
  | .null => "null"
  | .bool b => "boolean `" ++ (if b then "true" else "false") ++ "`"
  | .integer n => "integer `" ++ toString n ++ "`"
  | .float x => "floating point `" ++ jsonLayout.text x ++ "`"
  | .text s => "string " ++ Text.escaped s
  | .sequence => "sequence"
  | .map => "map"
  | .unitVariant => "unit variant"

/-- Why a text was not read. -/
inductive ReadError where
  /-- The text is not JSON, or its nesting is not that of the shape. -/
  | malformed
  | missingField (name : String)
  | duplicateField (name : String)
  | unknownVariant (name : String) (known : List String)
  /-- A value of the wrong kind. -/
  | invalidType (found : Found) (wanted : String)
  /-- A value of the right kind out of its range. -/
  | invalidValue (found : Found) (wanted : String)
  /-- An array with too few items for a record. -/
  | invalidLength (length : Nat) (wanted : String) (fields : Nat)

/-- A choice of names. -/
def choice : List String → String
  | [] => "nothing"
  | [a] => "`" ++ a ++ "`"
  | [a, b] => "`" ++ a ++ "` or `" ++ b ++ "`"
  | names => "one of " ++ commas (names.map fun n => "`" ++ n ++ "`")

/-- The words for a fault of the data. -/
def ReadError.message : ReadError → String
  | .malformed => "malformed JSON"
  | .missingField name => "missing field `" ++ name ++ "`"
  | .duplicateField name => "duplicate field `" ++ name ++ "`"
  | .unknownVariant name known => "unknown variant `" ++ name ++ "`, expected " ++ choice known
  | .invalidType found wanted => "invalid type: " ++ found.message ++ ", expected " ++ wanted
  | .invalidValue found wanted => "invalid value: " ++ found.message ++ ", expected " ++ wanted
  | .invalidLength length wanted fields =>
    "invalid length " ++ toString length ++ ", expected " ++ wanted ++ " with " ++ toString fields
      ++ (if fields = 1 then " element" else " elements")

/-- The number of known arrays and objects that may stand inside each other. -/
def maxDepth : Nat :=
  127

/-- Refuses a value of the wrong kind. -/
def refuse {α : Type} (wanted : String) : Json.Document → Except ReadError α
  | .null => .error (.invalidType .null wanted)
  | .bool b => .error (.invalidType (.bool b) wanted)
  | .number n =>
    match n.reading? with
    | some (.integer i) => .error (.invalidType (.integer i) wanted)
    | some (.float x) => .error (.invalidType (.float x) wanted)
    | none => .error .malformed
  | .string (some s) => .error (.invalidType (.text s) wanted)
  | .string none => .error .malformed
  | .array _ _ => .error (.invalidType .sequence wanted)
  | .object _ _ => .error (.invalidType .map wanted)
  | .broken => .error .malformed

/-- Reads an integer between two bounds. -/
def readInteger (low high : Int) (wanted : String) (d : Json.Document) : Except ReadError Value :=
  match d with
  | .number n =>
    match n.reading? with
    | some (.integer i) =>
      if low ≤ i ∧ i ≤ high then .ok (.int i) else .error (.invalidValue (.integer i) wanted)
    | _ => refuse wanted d
  | _ => refuse wanted d

/-- Reads a float; an integer is one too. -/
def readFloat (d : Json.Document) : Except ReadError Value :=
  match d with
  | .number n =>
    match n.reading? with
    | some (.integer i) =>
      .ok (.float (if i < 0 then (Binary64.ofNat i.natAbs).neg else .ofNat i.natAbs))
    | some (.float x) => .ok (.float x)
    | none => .error .malformed
  | _ => refuse "f64" d

/-- What the reader is about to read: a place of the data, or the fields of a variant. -/
inductive Goal (ν : Type) where
  | shape (s : Shape ν)
  /-- Fields, with the words for the whole and the name it is to have. -/
  | group (wanted name : String) (fields : List (FieldShape ν))

/-- A goal with the named types taken apart. -/
inductive Task (ν : Type) where
  | bool
  | integer
  | size
  | float
  | text
  | list (item : ν)
  /-- A record, with the words for it and the value to make of its fields. -/
  | record (wanted : String) (make : List (String × Value) → Value) (fields : List (FieldShape ν))
  | variants (name : String) (cases : List (Case ν))

/-- Looks up the definition of a named type. -/
def Goal.task {ν : Type} (define : ν → Definition ν) : Goal ν → Task ν
  | .shape .bool => .bool
  | .shape .integer => .integer
  | .shape .size => .size
  | .shape .float => .float
  | .shape .text => .text
  | .shape (.list item) => .list item
  | .shape (.named type) =>
    match define type with
    | .record name fields => .record ("struct " ++ name) (.record name) fields
    | .variants name cases => .variants name cases
  | .group wanted name fields => .record wanted (.fielded name) fields

/-- The fields read so far, by name. -/
abbrev Entries := List (String × Value)

/-- What stands for a field that an object leaves out. -/
def FieldShape.absent {ν : Type} (f : FieldShape ν) : Except ReadError Value :=
  match f.default? with
  | some v => .ok v
  | none => if f.optional then .ok .none else .error (.missingField f.name)

/-- The fields of an object in the order of the shape. -/
def complete {ν : Type} (seen : Entries) : List (FieldShape ν) → Except ReadError Entries
  | [] => .ok []
  | f :: fs => do
    let v ← match seen.lookup f.name with
      | some v => pure v
      | none => f.absent
    return (f.name, v) :: (← complete seen fs)

/-- The fields that an array leaves out at its end. The first of them that must be there is at
fault, by its index among the `count` fields. -/
def pad {ν : Type} (wanted : String) (count index : Nat) :
    List (FieldShape ν) → Except ReadError Entries
  | [] => .ok []
  | f :: fs =>
    match f.default? with
    | some v => do return (f.name, v) :: (← pad wanted count (index + 1) fs)
    | none => .error (.invalidLength index wanted count)

/-- Refuses a document unless `sound`. -/
def requireSound (sound : Bool) : Except ReadError Unit :=
  if sound then .ok () else .error .malformed

/-- Finds the case of a variant by its name. -/
def findCase {ν : Type} (cases : List (Case ν)) (name : String) : Except ReadError (Case ν) :=
  match cases.find? (·.name == name) with
  | some c => .ok c
  | none => .error (.unknownVariant name (cases.map (·.name)))

/-- A variant that is written as its bare name. -/
def bareVariant {ν : Type} (c : Case ν) : Except ReadError Value :=
  match c.content with
  | .nothing => .ok (.variant c.name)
  | .one _ _ => .error (.invalidType .unitVariant "newtype variant")
  | .fields _ => .error (.invalidType .unitVariant "struct variant")

/-- The document is null. -/
def isNull : Json.Document → Bool
  | .null => true
  | _ => false

/-- Opens an array or object: `depth` more may be open inside. -/
def descend (depth : Nat) : Except ReadError Nat :=
  match depth with
  | 0 => .error .malformed
  | depth + 1 => .ok depth

mutual

/-- Reads a document. `depth` arrays and objects may still be opened. -/
def read {ν : Type} (define : ν → Definition ν) (depth : Nat) (goal : Goal ν) :
    Json.Document → Except ReadError Value
  | .array items closed =>
    match goal.task define with
    | .list item => do
      let depth ← descend depth
      let vs ← readItems define depth item items
      requireSound closed
      return .list vs
    | .record wanted make fields => do
      let depth ← descend depth
      let entries ← readPositions define depth wanted fields.length 0 fields closed items
      return make entries
    | .variants _ _ => .error .malformed
    | .bool => refuse "a boolean" (.array [] true)
    | .integer => refuse "i64" (.array [] true)
    | .size => refuse "usize" (.array [] true)
    | .float => refuse "f64" (.array [] true)
    | .text => refuse "a string" (.array [] true)
  | .object members closed =>
    match goal.task define with
    | .record _ make fields => do
      let depth ← descend depth
      let seen ← readMembers define depth fields [] members
      requireSound closed
      return make (← complete seen fields)
    | .variants name cases => do
      let depth ← descend depth
      readVariant define depth name cases closed members
    | .list _ => refuse "a sequence" (.object [] true)
    | .bool => refuse "a boolean" (.object [] true)
    | .integer => refuse "i64" (.object [] true)
    | .size => refuse "usize" (.object [] true)
    | .float => refuse "f64" (.object [] true)
    | .text => refuse "a string" (.object [] true)
  | d =>
    match goal.task define with
    | .list _ => refuse "a sequence" d
    | .record wanted _ _ => refuse wanted d
    | .variants _ cases =>
      match d with
      | .string (some name) => do bareVariant (← findCase cases name)
      | _ => .error .malformed
    | .bool =>
      match d with
      | .bool b => .ok (.bool b)
      | _ => refuse "a boolean" d
    | .integer => readInteger Int64.minValue.toInt Int64.maxValue.toInt "i64" d
    | .size => readInteger 0 (UInt64.size - 1) "usize" d
    | .float => readFloat d
    | .text =>
      match d with
      | .string (some s) => .ok (.text s)
      | _ => refuse "a string" d

/-- Reads the items of a list. -/
def readItems {ν : Type} (define : ν → Definition ν) (depth : Nat) (item : ν) :
    List Json.Document → Except ReadError (List Value)
  | [] => .ok []
  | d :: ds => do
    let v ← read define depth (.shape (.named item)) d
    return v :: (← readItems define depth item ds)

/-- Reads fields by their position in an array. -/
def readPositions {ν : Type} (define : ν → Definition ν) (depth : Nat) (wanted : String)
    (count index : Nat) (fields : List (FieldShape ν)) (closed : Bool) :
    List Json.Document → Except ReadError Entries
  | [] => do
    requireSound closed
    pad wanted count index fields
  | d :: ds =>
    match fields with
    | [] => .error .malformed
    | f :: fs => do
      let v ←
        if f.optional then
          if isNull d then pure .none
          else .some <$> read define depth (.shape f.shape) d
        else read define depth (.shape f.shape) d
      let rest ← readPositions define depth wanted count (index + 1) fs closed ds
      return (f.name, v) :: rest

/-- Reads the members of an object; members that no field has the name of are skipped. -/
def readMembers {ν : Type} (define : ν → Definition ν) (depth : Nat) (fields : List (FieldShape ν))
    (seen : Entries) : List Json.Member → Except ReadError Entries
  | [] => .ok seen
  | ⟨some name, d⟩ :: ms =>
    match fields.find? (·.name == name) with
    | none => do
      requireSound d.isSound
      readMembers define depth fields seen ms
    | some f =>
      if (seen.lookup name).isSome then .error (.duplicateField name)
      else do
        let v ←
          if f.optional then
            if isNull d then pure .none
            else .some <$> read define depth (.shape f.shape) d
          else read define depth (.shape f.shape) d
        readMembers define depth fields ((name, v) :: seen) ms
  | ⟨none, _⟩ :: _ => .error .malformed

/-- Reads an object that names one variant. -/
def readVariant {ν : Type} (define : ν → Definition ν) (depth : Nat) (type : String)
    (cases : List (Case ν)) (closed : Bool) : List Json.Member → Except ReadError Value
  | [] => .error .malformed
  | ⟨none, _⟩ :: _ => .error .malformed
  | ⟨some name, d⟩ :: ms => do
    let c ← findCase cases name
    let v ←
      match c.content with
      | .nothing => if isNull d then pure (.variant name) else refuse "unit" d
      | .one shape optional => do
        let v ←
          if optional then
            if isNull d then pure .none
            else .some <$> read define depth (.shape shape) d
          else read define depth (.shape shape) d
        pure (.wrapped name v)
      | .fields fields =>
        read define depth (.group ("struct variant " ++ type ++ "::" ++ name) name fields) d
    requireSound (ms.isEmpty && closed)
    return v

end

end SqlCompiler.Data
