import StaticTyping.Json.Basic
import StaticTyping.Json.Token

/-!
# Reading documents

Tokens are taken one at a time.  The arrays and objects that are still open are kept on a stack,
innermost first; a value that is complete goes into the innermost of them.
-/

namespace StaticTyping
namespace Json

/-- An array or object that is still open, its contents last first. -/
inductive Frame where
  | array (items : List Json)
  | object (members : List Member)
  | field (members : List Member) (key : Option String)

inductive Phase where
  | value
  | firstValue
  | key
  | firstKey
  | colon
  | separator

/-- Where a reading stands: inside a document, or behind it. -/
inductive Reading where
  | inside (phase : Phase) (open_ : List Frame)
  | done (document : Json)

namespace Reading

def settle? (v : Json) : List Frame → Option Reading
  | [] => some (.done v)
  | .array items :: fs => some (.inside .separator (.array (v :: items) :: fs))
  | .field members key :: fs => some (.inside .separator (.object (⟨key, v⟩ :: members) :: fs))
  | .object _ :: _ => none

def begin? (fs : List Frame) : Token → Option Reading
  | .null => settle? .null fs
  | .bool b => settle? (.bool b) fs
  | .num digits => settle? (.num digits) fs
  | .str text => settle? (.str text) fs
  | .openBracket => some (.inside .firstValue (.array [] :: fs))
  | .openBrace => some (.inside .firstKey (.object [] :: fs))
  | _ => none

def step? : Reading → Token → Option Reading
  | .done _, _ => none
  | .inside .value fs, t => begin? fs t
  | .inside .firstValue (.array items :: fs), .closeBracket => settle? (.arr items.reverse) fs
  | .inside .firstValue fs, t => begin? fs t
  | .inside .firstKey (.object members :: fs), .closeBrace => settle? (.obj members.reverse) fs
  | .inside .firstKey (.object members :: fs), .str key =>
      some (.inside .colon (.field members key :: fs))
  | .inside .key (.object members :: fs), .str key =>
      some (.inside .colon (.field members key :: fs))
  | .inside .colon fs, .colon => some (.inside .value fs)
  | .inside .separator (.array items :: fs), .comma => some (.inside .value (.array items :: fs))
  | .inside .separator (.array items :: fs), .closeBracket => settle? (.arr items.reverse) fs
  | .inside .separator (.object members :: fs), .comma =>
      some (.inside .key (.object members :: fs))
  | .inside .separator (.object members :: fs), .closeBrace => settle? (.obj members.reverse) fs
  | _, _ => none

def steps? : Reading → List Token → Option Reading
  | r, [] => some r
  | r, t :: ts => (r.step? t).bind fun r => steps? r ts

def document? : Reading → Option Json
  | .done v => some v
  | .inside _ _ => none

end Reading

def ofTokens? (ts : List Token) : Option Json :=
  (Reading.steps? (.inside .value []) ts).bind Reading.document?

def read? (text : String) : Option Json :=
  (tokens? text.toList).bind ofTokens?

end Json
end StaticTyping
