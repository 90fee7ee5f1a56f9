import SqlCompiler.Data.Reading
import SqlCompiler.Proofs.Exchange.Documents

/-!
# Reading data back

Data fits a shape if it has the fields of its records in order, each with something that fits the
field, and only variants that the shape knows (`Fits`). The document of such data is plain if the
data holds no float (`Fits.isPlain`). Reading it by the shape then gives the data back, if arrays
and objects do not stand too deep in each other (`Fits.read`).
-/

namespace SqlCompiler

namespace Json

mutual

/-- The number of arrays and objects that stand inside each other. -/
def Document.nesting : Document → Nat
  | .array items _ => itemNesting items + 1
  | .object members _ => memberNesting members + 1
  | _ => 0

/-- The nesting of the deepest item. -/
def itemNesting : List Document → Nat
  | [] => 0
  | d :: ds => max d.nesting (itemNesting ds)

/-- The nesting of the deepest member. -/
def memberNesting : List Member → Nat
  | [] => 0
  | ⟨_, v⟩ :: ms => max v.nesting (memberNesting ms)

end

end Json

namespace Data

open Json (itemNesting memberNesting)

mutual

/-- A float stands somewhere in the data. -/
def Value.holdsFloat : Value → Bool
  | .float _ => true
  | .some v => v.holdsFloat
  | .list items => itemsHoldFloat items
  | .record _ fields => fieldsHoldFloat fields
  | .wrapped _ content => content.holdsFloat
  | .fielded _ fields => fieldsHoldFloat fields
  | _ => false

/-- A float stands in one of the items. -/
def itemsHoldFloat : List Value → Bool
  | [] => false
  | v :: vs => v.holdsFloat || itemsHoldFloat vs

/-- A float stands in one of the fields. -/
def fieldsHoldFloat : List (String × Value) → Bool
  | [] => false
  | (_, v) :: fs => v.holdsFloat || fieldsHoldFloat fs

end

/-! ## Data that fits -/

mutual

/-- A value fits a shape. -/
inductive Fits {ν : Type} (define : ν → Definition ν) : Shape ν → Value → Prop where
  | bool (b : Bool) : Fits define .bool (.bool b)
  | integer (n : Int64) : Fits define .integer (.int n.toInt)
  | float (x : Binary64) : Fits define .float (.float x)
  | text (s : String) : Fits define .text (.text s)
  | list {item : ν} {vs : List Value} (h : FitItems define item vs) :
      Fits define (.list item) (.list vs)
  | record {type : ν} {name : String} {fields : List (FieldShape ν)} {entries : Entries}
      (hdefine : define type = .record name fields) (h : FitFields define fields entries) :
      Fits define (.named type) (.record name entries)
  | variant {type : ν} {typeName name : String} {cases : List (Case ν)}
      (hdefine : define type = .variants typeName cases)
      (hcase : findCase cases name = .ok ⟨name, .nothing⟩) :
      Fits define (.named type) (.variant name)
  | wrapped {type : ν} {typeName name : String} {cases : List (Case ν)} {shape : Shape ν}
      {optional : Bool} {v : Value} (hdefine : define type = .variants typeName cases)
      (hcase : findCase cases name = .ok ⟨name, .one shape optional⟩)
      (h : FitsPlace define shape optional v) : Fits define (.named type) (.wrapped name v)
  | fielded {type : ν} {typeName name : String} {cases : List (Case ν)}
      {fields : List (FieldShape ν)} {entries : Entries}
      (hdefine : define type = .variants typeName cases)
      (hcase : findCase cases name = .ok ⟨name, .fields fields⟩)
      (h : FitFields define fields entries) : Fits define (.named type) (.fielded name entries)

/-- All items fit a named type. -/
inductive FitItems {ν : Type} (define : ν → Definition ν) : ν → List Value → Prop where
  | nil {item : ν} : FitItems define item []
  | cons {item : ν} {v : Value} {vs : List Value} (h : Fits define (.named item) v)
      (hs : FitItems define item vs) : FitItems define item (v :: vs)

/-- A value fits a place that may be optional. -/
inductive FitsPlace {ν : Type} (define : ν → Definition ν) : Shape ν → Bool → Value → Prop where
  | required {shape : Shape ν} {v : Value} (h : Fits define shape v) :
      FitsPlace define shape false v
  | absent {shape : Shape ν} : FitsPlace define shape true .none
  | present {shape : Shape ν} {v : Value} (h : Fits define shape v) :
      FitsPlace define shape true (.some v)

/-- Entries are those of the fields, in their order, and fit them. -/
inductive FitFields {ν : Type} (define : ν → Definition ν) :
    List (FieldShape ν) → Entries → Prop where
  | nil : FitFields define [] []
  | cons {f : FieldShape ν} {fs : List (FieldShape ν)} {v : Value} {es : Entries}
      (h : FitsPlace define f.shape f.optional v) (hs : FitFields define fs es) :
      FitFields define (f :: fs) ((f.name, v) :: es)

end

variable {ν : Type} {define : ν → Definition ν}

mutual

/-- What fits a shape and holds no float has a plain document. -/
theorem Fits.isPlain {shape : Shape ν} {v : Value} (h : Fits define shape v)
    (hfloat : v.holdsFloat = false) : v.document.IsPlain := by
  -- Along the shape that the data fits.
  match h with
  | .bool b => trivial
  | .integer n => exact ⟨n.toInt, rfl⟩
  | .float x => cases hfloat
  | .text s => exact ⟨s, rfl⟩
  | .list h => exact ⟨rfl, h.isPlain hfloat⟩
  | .record _ h => exact ⟨rfl, h.isPlain hfloat⟩
  | .variant _ _ => exact ⟨_, rfl⟩
  | .wrapped _ _ h => exact ⟨rfl, ⟨_, rfl⟩, h.isPlain hfloat, trivial⟩
  | .fielded _ _ h => exact ⟨rfl, ⟨_, rfl⟩, ⟨rfl, h.isPlain hfloat⟩, trivial⟩

/-- The documents of list items are plain if the items hold no float. -/
theorem FitItems.isPlain {item : ν} {vs : List Value} (h : FitItems define item vs)
    (hfloat : itemsHoldFloat vs = false) : Json.PlainItems (documents vs) := by
  match h with
  | .nil => trivial
  | .cons h hs =>
    obtain ⟨hfirst, hrest⟩ := Bool.or_eq_false_iff.mp hfloat
    exact ⟨h.isPlain hfirst, hs.isPlain hrest⟩

/-- The document of what stands in a place is plain if it holds no float. -/
theorem FitsPlace.isPlain {shape : Shape ν} {optional : Bool} {v : Value}
    (h : FitsPlace define shape optional v) (hfloat : v.holdsFloat = false) :
    v.document.IsPlain := by
  match h with
  | .required h => exact h.isPlain hfloat
  | .absent => trivial
  | .present h => exact h.isPlain hfloat

/-- The members of a record are plain if its fields hold no float. -/
theorem FitFields.isPlain {fields : List (FieldShape ν)} {entries : Entries}
    (h : FitFields define fields entries) (hfloat : fieldsHoldFloat entries = false) :
    Json.PlainMembers (members entries) := by
  match h with
  | .nil => trivial
  | .cons h hs =>
    obtain ⟨hfirst, hrest⟩ := Bool.or_eq_false_iff.mp hfloat
    exact ⟨⟨_, rfl⟩, h.isPlain hfirst, hs.isPlain hrest⟩

end

/-- Only a float can be written as null. -/
theorem Fits.isNull_document {shape : Shape ν} {v : Value} (h : Fits define shape v)
    (hfloat : v.holdsFloat = false) : isNull v.document = false := by
  cases h with
  | float x => cases hfloat
  | _ => rfl

/-! ## Numbers -/

/-- The spelling of a 64-bit integer is read as the integer. -/
theorem reading?_ofInt (n : Int64) :
    (Numeral.ofInt n.toInt).reading? = some (.integer n.toInt) := by
  have hlow := n.le_toInt
  have hhigh := n.toInt_lt
  have hnatural : Numeral.natural (Nat.toDigits 10 n.toInt.natAbs) = n.toInt.natAbs :=
    Nat.ofDigitChars_ten_toDigits
  have hsize : n.toInt.natAbs < UInt64.size := by
    have : UInt64.size = 2 ^ 64 := rfl
    omega
  simp only [Numeral.reading?, Numeral.ofInt, hnatural, hsize, and_self, if_true]
  -- The least negative number has no positive counterpart.
  by_cases hneg : n.toInt < 0
  · have habs : 0 < n.toInt.natAbs ∧ n.toInt.natAbs ≤ Nat.pow 2 63 := by
      have : Nat.pow 2 63 = 2 ^ 63 := rfl
      omega
    have hvalue : -(n.toInt.natAbs : Int) = n.toInt := by omega
    simp only [hneg, decide_true, if_true, habs, and_self, hvalue]
  · have hvalue : (n.toInt.natAbs : Int) = n.toInt := by omega
    simp [hneg, hvalue]

/-- An integer of 64 bits is read back. -/
theorem readInteger_ofInt (n : Int64) :
    readInteger Int64.minValue.toInt Int64.maxValue.toInt "i64" (.number (.ofInt n.toInt))
      = .ok (.int n.toInt) := by
  have hrange : Int64.minValue.toInt ≤ n.toInt ∧ n.toInt ≤ Int64.maxValue.toInt :=
    ⟨n.minValue_le_toInt, n.toInt_le⟩
  simp only [readInteger, reading?_ofInt, if_pos hrange]

/-! ## Fields -/

/-- What is read for a place that may be optional. -/
def readPlace (define : ν → Definition ν) (depth : Nat) (shape : Shape ν) (optional : Bool)
    (d : Json.Document) : Except ReadError Value :=
  if optional then
    if isNull d then pure .none
    else .some <$> read define depth (.shape shape) d
  else read define depth (.shape shape) d

/-- An entry is found by its name if no other entry has the name. -/
theorem lookup_of_mem {n : String} {v : Value} {es : Entries} (h : (n, v) ∈ es)
    (hnames : (es.map (·.1)).Nodup) : es.lookup n = some v := by
  induction es with
  | nil => cases h
  | cons e es ih =>
    obtain ⟨m, w⟩ := e
    rw [List.map_cons, List.nodup_cons] at hnames
    -- An entry further on has another name than the first.
    obtain heq | hmem := List.mem_cons.mp h
    · cases heq
      simp
    · have hne : n ≠ m := by
        rintro rfl
        exact hnames.1 (List.mem_map.mpr ⟨(n, v), hmem, rfl⟩)
      rw [List.lookup_cons, beq_eq_false_iff_ne.mpr hne]
      exact ih hmem hnames.2

/-- Fields that fit have the names of the shape, in its order. -/
theorem FitFields.names {fields : List (FieldShape ν)} {entries : Entries}
    (h : FitFields define fields entries) : entries.map (·.1) = fields.map (·.name) := by
  match h with
  | .nil => rfl
  | .cons _ hs => rw [List.map_cons, List.map_cons, hs.names]

/-- Fields that have all been seen are completed in their order. -/
theorem FitFields.complete {fields : List (FieldShape ν)} {entries seen : Entries}
    (h : FitFields define fields entries)
    (hseen : ∀ e ∈ entries, seen.lookup e.1 = some e.2) :
    Data.complete seen fields = .ok entries := by
  match h with
  | .nil => rfl
  | @FitFields.cons _ _ f fs v es _ hs =>
    obtain ⟨hfirst, hrest⟩ := List.forall_mem_cons.mp hseen
    have hfirst : seen.lookup f.name = some v := hfirst
    simp only [Data.complete, hfirst, hs.complete hrest]
    rfl

/-- An object is read as a record if its members are read and no field is missing. -/
theorem read_object {goal : Goal ν} {wanted : String} {make : Entries → Value}
    {fields : List (FieldShape ν)} {depth : Nat} {ms : List Json.Member} {seen entries : Entries}
    (htask : goal.task define = .record wanted make fields)
    (hread : readMembers define depth fields [] ms = .ok seen)
    (hcomplete : complete seen fields = .ok entries) :
    read define (depth + 1) goal (.object ms true) = .ok (make entries) := by
  simp only [read, htask, descend, requireSound, if_true, hread, hcomplete, bind, Except.bind]
  rfl

/-- An object with all the fields of a record is read as the record. -/
theorem FitFields.read_object {goal : Goal ν} {wanted : String} {make : Entries → Value}
    {fields : List (FieldShape ν)} {entries : Entries} {depth : Nat}
    (h : FitFields define fields entries) (hnames : (fields.map (·.name)).Nodup)
    (htask : goal.task define = .record wanted make fields)
    (hread : readMembers define depth fields [] (members entries) = .ok (entries.reverse ++ [])) :
    Data.read define (depth + 1) goal (.object (members entries) true)
      = .ok (make entries) := by
  refine Data.read_object htask hread (h.complete fun e he => lookup_of_mem ?_ ?_)
  · simpa using he
  · rw [List.append_nil, List.map_reverse, (List.reverse_perm _).nodup_iff, h.names]
    exact hnames

/-- Going on after a place has been read. -/
theorem readPlace_bind {depth : Nat} {shape : Shape ν} {optional : Bool} {d : Json.Document}
    {v : Value} {β : Type} (h : readPlace define depth shape optional d = .ok v)
    (k : Value → Except ReadError β) :
    (if optional then
      if isNull d then pure .none >>= k
      else (.some <$> read define depth (.shape shape) d) >>= k
    else read define depth (.shape shape) d >>= k) = k v := by
  have hbind : (readPlace define depth shape optional d) >>= k = k v := by rw [h]; rfl
  rw [← hbind, readPlace]
  split
  · split <;> rfl
  · rfl

/-- A member that is known and has not been seen is read as its field. -/
theorem readMembers_cons {fields : List (FieldShape ν)} {f : FieldShape ν} {depth : Nat}
    {seen : Entries} {d : Json.Document} {v : Value} (ms : List Json.Member)
    (hfind : fields.find? (·.name == f.name) = some f) (hseen : seen.lookup f.name = none)
    (hread : readPlace define depth f.shape f.optional d = .ok v) :
    readMembers define depth fields seen (⟨some f.name, d⟩ :: ms)
      = readMembers define depth fields ((f.name, v) :: seen) ms := by
  rw [readMembers]
  simp only [hfind, hseen, Option.isSome_none, Bool.false_eq_true, if_false]
  exact readPlace_bind hread _

/-- An object names the variant that its one member is the content of. -/
theorem readVariant_wrapped {type name : String} {cases : List (Case ν)} {shape : Shape ν}
    {optional : Bool} {depth : Nat} {d : Json.Document} {v : Value}
    (hcase : findCase cases name = .ok ⟨name, .one shape optional⟩)
    (hread : readPlace define depth shape optional d = .ok v) :
    readVariant define depth type cases true [⟨some name, d⟩] = .ok (.wrapped name v) := by
  rw [readVariant, hcase]
  exact readPlace_bind hread fun v => .ok (Value.wrapped name v)

/-- A variant with fields is read by the shape of its fields. -/
theorem readVariant_fielded {type name : String} {cases : List (Case ν)}
    {fields : List (FieldShape ν)} {depth : Nat} {d : Json.Document} {v : Value}
    (hcase : findCase cases name = .ok ⟨name, .fields fields⟩)
    (hread : read define depth
      (.group ("struct variant " ++ type ++ "::" ++ name) name fields) d = .ok v) :
    readVariant define depth type cases true [⟨some name, d⟩] = .ok v := by
  rw [readVariant, hcase]
  show (read define depth _ d >>= fun v => .ok v) = _
  rw [hread]
  rfl

/-- The field lists of a record, or of the variants that have fields. -/
def Definition.fieldLists : Definition ν → List (List (FieldShape ν))
  | .record _ fields => [fields]
  | .variants _ cases =>
    cases.filterMap fun c =>
      match c.content with
      | .fields fields => some fields
      | _ => none

/-- Fields that stand together have different names. -/
def DistinctFields (define : ν → Definition ν) : Prop :=
  ∀ type, ∀ fields ∈ (define type).fieldLists, (fields.map (·.name)).Nodup

/-- A case that is found by its name is one of the cases. -/
theorem mem_of_findCase {cases : List (Case ν)} {name : String} {c : Case ν}
    (h : findCase cases name = .ok c) : c ∈ cases := by
  rw [findCase] at h
  split at h
  · rename_i hfind
    cases h
    exact List.mem_of_find?_eq_some hfind
  · cases h

/-- Each field is found by its name. -/
theorem find?_of_nodup {fields : List (FieldShape ν)} (h : (fields.map (·.name)).Nodup) :
    ∀ f ∈ fields, fields.find? (·.name == f.name) = some f := by
  induction fields with
  | nil => simp
  | cons g gs ih =>
    rw [List.map_cons, List.nodup_cons] at h
    refine List.forall_mem_cons.mpr ⟨by simp, fun f hf => ?_⟩
    have hne : g.name ≠ f.name := fun heq => h.1 (heq ▸ List.mem_map.mpr ⟨f, hf, rfl⟩)
    rw [List.find?_cons, beq_eq_false_iff_ne.mpr hne]
    exact ih h.2 f hf

/-- Where one more level is left, the levels below are one fewer. -/
theorem exists_depth {n depth : Nat} (h : n + 1 ≤ depth) : ∃ d, depth = d + 1 ∧ n ≤ d :=
  ⟨depth - 1, by omega, by omega⟩

mutual

/-- What fits a shape and holds no float is read back from its document. -/
theorem Fits.read {shape : Shape ν} {v : Value} (h : Fits define shape v)
    (hnames : DistinctFields define) (hfloat : v.holdsFloat = false) (depth : Nat)
    (hdepth : v.document.nesting ≤ depth) :
    Data.read define depth (.shape shape) v.document = .ok v := by
  match h with
  | .bool b => rfl
  | .integer n => exact readInteger_ofInt n
  | .float x => cases hfloat
  | .text s => rfl
  | .list h =>
    obtain ⟨depth, rfl, hitems⟩ := exists_depth hdepth
    have hread := h.read hnames hfloat depth hitems
    simp only [Value.document, Data.read, Goal.task, descend, hread, requireSound, if_true, bind,
      Except.bind]
    rfl
  | @Fits.record _ _ type _ _ _ hdefine h =>
    -- The fields of a record stand one level deeper.
    obtain ⟨depth, rfl, hfields⟩ := exists_depth hdepth
    have hdistinct := hnames type _ (by rw [hdefine]; exact List.mem_singleton_self _)
    have hread := h.read hnames hfloat depth hfields [] (find?_of_nodup hdistinct)
      (fun _ _ => rfl) hdistinct
    exact h.read_object hdistinct (by rw [Goal.task, hdefine]) hread
  | .variant hdefine hcase =>
    -- A variant without content is a text and takes no level.
    simp only [Value.document, Data.read, Goal.task, hdefine, hcase, bind, Except.bind]
    rfl
  | .wrapped hdefine hcase h =>
    obtain ⟨depth, rfl, hcontent⟩ := exists_depth hdepth
    rw [memberNesting, memberNesting, Nat.max_zero] at hcontent
    simp only [Value.document, Data.read, Goal.task, hdefine, descend, bind, Except.bind]
    exact readVariant_wrapped hcase (h.read hnames hfloat depth hcontent)
  | @Fits.fielded _ _ type _ _ _ _ _ hdefine hcase h =>
    obtain ⟨depth, rfl, hcontent⟩ := exists_depth hdepth
    rw [memberNesting, memberNesting, Nat.max_zero] at hcontent
    obtain ⟨depth, rfl, hfields⟩ := exists_depth hcontent
    simp only [Value.document, Data.read, Goal.task, hdefine, descend, bind, Except.bind]
    have hdistinct := hnames type _ (by
      rw [hdefine]
      exact List.mem_filterMap.mpr ⟨_, mem_of_findCase hcase, rfl⟩)
    have hread := h.read hnames hfloat depth hfields [] (find?_of_nodup hdistinct)
      (fun _ _ => rfl) hdistinct
    exact readVariant_fielded hcase (h.read_object hdistinct rfl hread)

/-- List items are read back one by one. -/
theorem FitItems.read {item : ν} {vs : List Value} (h : FitItems define item vs)
    (hnames : DistinctFields define) (hfloat : itemsHoldFloat vs = false) (depth : Nat)
    (hdepth : itemNesting (documents vs) ≤ depth) :
    readItems define depth item (documents vs) = .ok vs := by
  match h with
  | .nil => rfl
  | .cons h hs =>
    obtain ⟨hfirst, hrest⟩ := Bool.or_eq_false_iff.mp hfloat
    rw [documents, itemNesting] at hdepth
    rw [documents, readItems, h.read hnames hfirst depth (by omega),
      hs.read hnames hrest depth (by omega)]
    rfl

/-- What stands in a place is read back, also if it is missing. -/
theorem FitsPlace.read {shape : Shape ν} {optional : Bool} {v : Value}
    (h : FitsPlace define shape optional v) (hnames : DistinctFields define)
    (hfloat : v.holdsFloat = false) (depth : Nat) (hdepth : v.document.nesting ≤ depth) :
    readPlace define depth shape optional v.document = .ok v := by
  match h with
  | .required h => exact h.read hnames hfloat depth hdepth
  | .absent => rfl
  | .present h =>
    rw [Value.document] at hdepth ⊢
    rw [readPlace, if_pos rfl, h.isNull_document hfloat, if_neg Bool.false_ne_true,
      h.read hnames hfloat depth hdepth]
    rfl

/-- Members are read back one by one, and put in front of those already read. -/
theorem FitFields.read {fields rest : List (FieldShape ν)} {entries : Entries}
    (h : FitFields define rest entries) (hnames : DistinctFields define)
    (hfloat : fieldsHoldFloat entries = false) (depth : Nat)
    (hdepth : memberNesting (members entries) ≤ depth) (seen : Entries)
    (hfind : ∀ f ∈ rest, fields.find? (·.name == f.name) = some f)
    (hseen : ∀ f ∈ rest, seen.lookup f.name = none) (hdistinct : (rest.map (·.name)).Nodup) :
    readMembers define depth fields seen (members entries) = .ok (entries.reverse ++ seen) := by
  match h with
  | .nil => rfl
  | @FitFields.cons _ _ f fs v es h hs =>
    -- The field is new, and no later field has its name.
    obtain ⟨hfirst, hrest⟩ := Bool.or_eq_false_iff.mp hfloat
    rw [members, memberNesting] at hdepth
    obtain ⟨hf, hfs⟩ := List.forall_mem_cons.mp hfind
    obtain ⟨hs', hss⟩ := List.forall_mem_cons.mp hseen
    rw [List.map_cons, List.nodup_cons] at hdistinct
    rw [members, readMembers_cons _ hf hs' (h.read hnames hfirst depth (by omega)),
      hs.read hnames hrest depth (by omega) _ hfs ?_ hdistinct.2, List.reverse_cons,
      List.append_assoc, List.singleton_append]
    intro g hg
    have hne : g.name ≠ f.name := fun heq =>
      hdistinct.1 (heq ▸ List.mem_map.mpr ⟨g, hg, rfl⟩)
    rw [List.lookup_cons, beq_eq_false_iff_ne.mpr hne]
    exact hss g hg

end

end Data

end SqlCompiler
