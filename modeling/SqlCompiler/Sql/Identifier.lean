import SqlCompiler.Text.Quoted

/-!
# Identifiers

An identifier is written bare if it is a plain lower-case word that no dialect reserves, and between
double quotes otherwise.

`isPlain` is `valid_ident`, `keywords` are those of `is_keyword`, and `text` is `write_ident`.
-/

namespace SqlCompiler

/-- The words that some dialect reserves. -/
def keywords : List String :=
  ["access", "add", "all", "alter", "and", "any", "as", "asc", "audit", "between", "by", "case",
   "char", "check", "cluster", "column", "comment", "compress", "connect", "create", "cross",
   "current", "date", "decimal", "default", "delete", "desc", "distinct", "drop", "else", "end",
   "except", "exclusive", "exists", "fetch", "file", "float", "for", "from", "full", "grant",
   "group", "having", "identified", "immediate", "in", "increment", "index", "initial", "inner",
   "insert", "integer", "intersect", "into", "is", "join", "left", "level", "like", "limit", "lock",
   "long", "maxextents", "minus", "mode", "modify", "natural", "noaudit", "nocompress", "not",
   "nowait", "null", "number", "of", "offline", "offset", "on", "online", "option", "or", "order",
   "outer", "pctfree", "prior", "public", "raw", "rename", "resource", "revoke", "right", "row",
   "rowid", "rownum", "rows", "select", "session", "set", "share", "size", "smallint", "start",
   "successful", "synonym", "sysdate", "table", "then", "to", "trigger", "uid", "union", "unique",
   "update", "user", "using", "validate", "values", "varchar", "varchar2", "view", "whenever",
   "when", "where", "with"]

namespace Identifier

/-- A character that a bare identifier may start with. -/
def startsBare (c : Char) : Bool :=
  ('a' ≤ c && c ≤ 'z') || c == '_' || c == '$'

/-- A character that a bare identifier may go on with. -/
def continuesBare (c : Char) : Bool :=
  startsBare c || ('0' ≤ c && c ≤ '9')

/-- A plain lower-case word. -/
def isPlain (name : String) : Bool :=
  match name.toList with
  | [] => false
  | c :: cs => startsBare c && cs.all continuesBare

/-- The identifier needs no quotes. -/
def isBare (name : String) : Bool :=
  isPlain name && !keywords.contains name

/-- The identifier as it is written. -/
def text (name : String) : String :=
  if isBare name then name else Text.doubled '"' name

end Identifier

end SqlCompiler
