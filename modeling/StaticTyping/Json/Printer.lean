import StaticTyping.Json.Basic
import StaticTyping.Json.Quoted

/-!
# Writing documents

Two written forms: the compact one has no blanks, the indented one puts every item on a line of
its own, two blanks deeper than what it stands in.
-/

namespace StaticTyping
namespace Json

def quote (s : String) : String :=
  "\"" ++ String.ofList (escape s.toList) ++ "\""

def quoteText (text : Option String) : String :=
  quote (text.getD "")

mutual

def compact : Json → String
  | .null => "null"
  | .bool true => "true"
  | .bool false => "false"
  | .num digits => digits
  | .str text => quoteText text
  | .arr items => "[" ++ ",".intercalate (compactItems items) ++ "]"
  | .obj members => "\x7b" ++ ",".intercalate (compactMembers members) ++ "\x7d"
termination_by structural v => v

def compactItems : List Json → List String
  | [] => []
  | v :: vs => compact v :: compactItems vs
termination_by structural vs => vs

def compactMembers : List Member → List String
  | [] => []
  | ⟨key, v⟩ :: ms => (quoteText key ++ ":" ++ compact v) :: compactMembers ms
termination_by structural ms => ms

end

def newLine (depth : Nat) : String :=
  "\n" ++ String.ofList (List.replicate (2 * depth) ' ')

def enclose (left right : String) (depth : Nat) (items : List String) : String :=
  match items with
  | [] => left ++ right
  | items =>
      left ++ newLine (depth + 1) ++ ("," ++ newLine (depth + 1)).intercalate items ++
        newLine depth ++ right

mutual

def indented (depth : Nat) : Json → String
  | .null => "null"
  | .bool true => "true"
  | .bool false => "false"
  | .num digits => digits
  | .str text => quoteText text
  | .arr items => enclose "[" "]" depth (indentedItems (depth + 1) items)
  | .obj members => enclose "\x7b" "\x7d" depth (indentedMembers (depth + 1) members)
termination_by structural v => v

def indentedItems (depth : Nat) : List Json → List String
  | [] => []
  | v :: vs => indented depth v :: indentedItems depth vs
termination_by structural vs => vs

def indentedMembers (depth : Nat) : List Member → List String
  | [] => []
  | ⟨key, v⟩ :: ms => (quoteText key ++ ": " ++ indented depth v) :: indentedMembers depth ms
termination_by structural ms => ms

end

def pretty (v : Json) : String :=
  indented 0 v

end Json
end StaticTyping
