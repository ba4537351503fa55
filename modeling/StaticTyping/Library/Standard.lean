import StaticTyping.Library.Builtin

/-!
# Standard packages

The packages that are always there and need no files.
-/

namespace StaticTyping
namespace Library

def io : ModuleTy where
  name := "io"
  functions :=
    [function "print" (sig [("s", .string)] .nil),
      function "println" (sig [("s", .string)] .nil),
      function "printf" (variadicSig [("format", .string)] ("args", .any) .nil),
      function "eprintln" (sig [("s", .string)] .nil),
      function "readln" (sig [] .string),
      function "read_file" (sig [("path", .string)] .string),
      function "write_file" (sig [("path", .string), ("content", .string)] .nil)]
  classes := []
  values := []

/-- Strings.  These are also the methods of strings. -/
def strings : ModuleTy where
  name := "strings"
  functions :=
    [function "length" (sig [("s", .string)] .int),
      function "to_lower" (sig [("s", .string)] .string),
      function "to_upper" (sig [("s", .string)] .string),
      function "trim" (sig [("s", .string)] .string),
      function "contains" (sig [("s", .string), ("sub", .string)] .bool),
      function "has_prefix" (sig [("s", .string), ("prefix", .string)] .bool),
      function "has_suffix" (sig [("s", .string), ("suffix", .string)] .bool),
      function "index" (sig [("s", .string), ("sub", .string)] .int),
      function "split" (sig [("s", .string), ("sep", .string)] (.list .string)),
      function "replace" (sig [("s", .string), ("old", .string), ("new", .string)] .string),
      function "to_int" (sig [("s", .string)] .int),
      function "to_float" (sig [("s", .string)] .float)]
  classes := []
  values := []

def lists : ModuleTy where
  name := "lists"
  functions :=
    [function "length" (sig [("items", .list .any)] .int),
      function "is_empty" (sig [("items", .list .any)] .bool),
      function "contains" (sig [("items", .list .any), ("item", .any)] .bool),
      function "index_of" (sig [("items", .list .any), ("item", .any)] .int),
      function "reverse" (sig [("items", .list .any)] (.list .any)),
      function "join" (sig [("items", .list .string), ("sep", .string)] .string),
      function "sum" (sig [("items", .list .int)] .int),
      function "min" (sig [("items", .list .int)] .int),
      function "max" (sig [("items", .list .int)] .int)]
  classes := []
  values := []

def maps : ModuleTy where
  name := "maps"
  functions :=
    [function "length" (sig [("m", .map .any .any)] .int),
      function "contains" (sig [("m", .map .any .any), ("key", .any)] .bool),
      function "keys" (sig [("m", .map .any .any)] (.list .any)),
      function "values" (sig [("m", .map .any .any)] (.list .any))]
  classes := []
  values := []

def errors : ModuleTy where
  name := "errors"
  functions :=
    [function "message" (sig [("err", .error)] .string),
      function "wrap" (sig [("err", .error), ("context", .string)] .error)]
  classes := []
  values := []

def math : ModuleTy where
  name := "math"
  functions :=
    [function "abs" (sig [("x", .int)] .int),
      function "min" (sig [("a", .int), ("b", .int)] .int),
      function "max" (sig [("a", .int), ("b", .int)] .int),
      function "sqrt" (sig [("x", .float)] .float),
      function "pow" (sig [("base", .float), ("exp", .float)] .float),
      function "floor" (sig [("x", .float)] .int)]
  classes := []
  values := [⟨"PI", .float⟩, ⟨"E", .float⟩]

def packages : List (String × ModuleTy) :=
  [("aura/io", io), ("aura/strings", strings), ("aura/lists", lists), ("aura/maps", maps),
    ("aura/errors", errors), ("aura/math", math)]

/-- The standard package of that path. -/
def standard? (package : String) : Option ModuleTy :=
  (packages.find? (·.1 == package)).map (·.2)

theorem of_standard? {P : ModuleTy → Prop} (hall : ∀ p ∈ packages, P p.2) {package : String}
    {m : ModuleTy} (h : standard? package = some m) : P m := by
  rcases Option.map_eq_some_iff.mp h with ⟨p, hp, rfl⟩
  exact hall p (List.mem_of_find?_eq_some hp)

end Library
end StaticTyping
