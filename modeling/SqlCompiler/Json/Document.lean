import SqlCompiler.Json.Token

/-!
# JSON documents

A `Document` is the tree of a JSON text, read up to the place where the text stops being JSON. What
stands before that place is kept, so that a reader that walks the tree meets the faults of the
content and the fault of the text in the order of the text. `Document.parse` builds the tree with a
stack of open arrays and objects, one token at a time.
-/

namespace SqlCompiler.Json

mutual

/-- A JSON value, or what there is of it. -/
inductive Document where
  | null
  | bool (b : Bool)
  | number (n : Numeral)
  /-- A string, or none where its escapes leave a surrogate without its partner. -/
  | string (s : Option String)
  /-- The items of an array, and whether the text goes on to close it. -/
  | array (items : List Document) (closed : Bool)
  /-- The members of an object, and whether the text goes on to close it. -/
  | object (members : List Member) (closed : Bool)
  /-- No value stands here. -/
  | broken

/-- A member of an object. -/
structure Member where
  /-- The key, or none where its escapes leave a surrogate without its partner. -/
  key : Option String
  /-- The value, broken if no colon or no value follows. -/
  value : Document

end

/-- An open array or object, its last item or member first. -/
inductive Frame where
  | array (items : List Document)
  /-- The members, and the key whose value is awaited. -/
  | object (members : List Member) (key : Option (Option String))

namespace Frame

/-- Adds the value that the frame awaits. -/
def add : Frame → Document → Frame
  | .array items, d => .array (d :: items)
  | .object members (some k), d => .object (⟨k, d⟩ :: members) none
  | .object members none, _ => .object members none

/-- The document of a frame that the text closes. -/
def close : Frame → Document
  | .array items => .array items.reverse true
  | .object members _ => .object members.reverse true

/-- The document of a frame that the text leaves open. -/
def abandon : Frame → Document
  | .array items => .array items.reverse false
  | .object members none => .object members.reverse false
  | .object members (some k) => .object (⟨k, .broken⟩ :: members).reverse false

end Frame

/-- What the grammar allows next. -/
inductive Awaited where
  | value
  /-- A value or the end of an array that has just opened. -/
  | firstItem
  /-- A comma or the end of the innermost frame. -/
  | next
  /-- A key or the end of an object that has just opened. -/
  | firstKey
  | key
  | colon
  deriving DecidableEq

/-- The state of building a document. -/
inductive Builder where
  /-- Frames are open, the innermost first, or the document has not begun. -/
  | building (frames : List Frame) (awaited : Awaited)
  /-- The document is complete. -/
  | complete (d : Document)
  /-- The document is complete and more text follows. -/
  | overrun (d : Document)
  /-- The text stopped being JSON. -/
  | stopped (d : Document)

namespace Builder

/-- Leaves all frames open; `d` stands in the innermost. -/
def leave : List Frame → Document → Document
  | [], d => d
  | f :: fs, d => leave fs (f.add d).abandon

/-- Leaves all frames as they are. -/
def stop : List Frame → Builder
  | [] => .stopped .broken
  | f :: fs => .stopped (leave fs f.abandon)

/-- Puts a complete value where it is awaited. -/
def deliver (frames : List Frame) (d : Document) : Builder :=
  match frames with
  | [] => .complete d
  | f :: fs => .building (f.add d :: fs) .next

/-- Closes the innermost frame. -/
def closeFrame : List Frame → Builder
  | [] => .stopped .broken
  | f :: fs => deliver fs f.close

/-- A token where a value is awaited. -/
def takeValue (frames : List Frame) : Token → Builder
  | .null => deliver frames .null
  | .bool b => deliver frames (.bool b)
  | .number n => deliver frames (.number n)
  | .string s => deliver frames (.string s)
  | .openArray => .building (.array [] :: frames) .firstItem
  | .openObject => .building (.object [] none :: frames) .firstKey
  | _ => stop frames

/-- A token where a key is awaited. -/
def takeKey (frames : List Frame) : Token → Builder
  | .string s =>
    match frames with
    | .object members _ :: fs => .building (.object members (some s) :: fs) .colon
    | _ => stop frames
  | _ => stop frames

/-- A token after a complete item or member. -/
def takeNext (frames : List Frame) : Token → Builder
  | .comma =>
    match frames with
    | .array _ :: _ => .building frames .value
    | .object _ _ :: _ => .building frames .key
    | [] => stop frames
  | .closeArray =>
    match frames with
    | .array _ :: _ => closeFrame frames
    | _ => stop frames
  | .closeObject =>
    match frames with
    | .object _ _ :: _ => closeFrame frames
    | _ => stop frames
  | _ => stop frames

/-- Takes one token. -/
def step (b : Builder) (t : Token) : Builder :=
  match b with
  | .building frames .value => takeValue frames t
  | .building frames .firstItem =>
    if t = .closeArray then closeFrame frames else takeValue frames t
  | .building frames .next => takeNext frames t
  | .building frames .firstKey =>
    if t = .closeObject then closeFrame frames else takeKey frames t
  | .building frames .key => takeKey frames t
  | .building frames .colon => if t = .colon then .building frames .value else stop frames
  | .complete d => .overrun d
  | .overrun d => .overrun d
  | .stopped d => .stopped d

end Builder

/-- The tree of a text. -/
structure Parsed where
  /-- The tree of the text, up to the place where it stops being JSON. -/
  root : Document
  /-- Nothing but white space follows the root. -/
  alone : Bool

/-- The parser's state: the lexer's and the builder's. -/
structure Document.Parser where
  /-- The lexical level. -/
  lexer : Lexer := .ready
  /-- The tree level. -/
  builder : Builder := .building [] .value

/-- Takes one character. -/
def Document.Parser.step (p : Document.Parser) (c : Char) : Document.Parser :=
  let (tokens, lexer) := p.lexer.step c
  { lexer, builder := tokens.foldl Builder.step p.builder }

/-- Ends the text. -/
def Document.Parser.finish (p : Document.Parser) : Parsed :=
  match p.lexer.finish.foldl Builder.step p.builder with
  | .building [] _ => ⟨.broken, true⟩
  | .building (f :: fs) _ => ⟨Builder.leave fs f.abandon, true⟩
  | .complete d => ⟨d, true⟩
  | .overrun d => ⟨d, false⟩
  | .stopped d => ⟨d, true⟩

/-- The tree of a text. -/
def Document.parse (text : List Char) : Parsed :=
  (text.foldl Document.Parser.step {}).finish

mutual

/-- The text is JSON throughout this value. Surrogates are not looked at. -/
def Document.isSound : Document → Bool
  | .array items closed => closed && soundItems items
  | .object members closed => closed && soundMembers members
  | .broken => false
  | _ => true

/-- All items are sound. -/
def soundItems : List Document → Bool
  | [] => true
  | d :: ds => d.isSound && soundItems ds

/-- All members are sound. -/
def soundMembers : List Member → Bool
  | [] => true
  | ⟨_, v⟩ :: ms => v.isSound && soundMembers ms

end

end SqlCompiler.Json
