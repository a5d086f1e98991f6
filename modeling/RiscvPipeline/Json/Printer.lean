import RiscvPipeline.Json.Basic

/-! Writing JSON values: without blanks, and with the members of an object in the order of their
names. -/

namespace RiscvPipeline.Json

/-- A character as it stands in a string. Control characters are escaped. -/
def escaped (c : Char) : String :=
  match c with
  | '"' => "\\\""
  | '\\' => "\\\\"
  | '\x08' => "\\b"
  | '\x0c' => "\\f"
  | '\n' => "\\n"
  | '\r' => "\\r"
  | '\t' => "\\t"
  | c =>
    if c < ' ' then "\\u" ++ Text.padLeft '0' 4 (Text.hexDigits c.toNat) else String.singleton c

def quote (s : String) : String := "\"" ++ String.join (s.toList.map escaped) ++ "\""

/-- The text of a string, which is empty if the string spells none. -/
def textOf (s : Quoted) : String := s.text?.getD ""

/-- Adds a member to others in the order of their names. A later value replaces an earlier one. -/
def insertMember {α : Type} (name : String) (value : α) : List (String × α) → List (String × α)
  | [] => [(name, value)]
  | (n, v) :: r =>
    if name = n then (name, value) :: r
    else if name < n then (name, value) :: (n, v) :: r
    else (n, v) :: insertMember name value r

mutual

def render : Json → String
  | null => "null"
  | bool b => toString b
  | integer n => toString n
  | decimal lexeme => lexeme
  | string s => quote (textOf s)
  | array items => "[" ++ String.intercalate "," (renderItems items) ++ "]"
  | object entries =>
    let members := (renderMembers entries []).map fun (name, value) => quote name ++ ":" ++ value
    "\x7b" ++ String.intercalate "," members ++ "\x7d"

def renderItems : List Json → List String
  | [] => []
  | v :: r => render v :: renderItems r

/-- The members of an object in the order of their names, added to those that came before. -/
def renderMembers : List (Quoted × Json) → List (String × String) → List (String × String)
  | [], found => found
  | (key, v) :: r, found => renderMembers r (insertMember (textOf key) (render v) found)

end

end RiscvPipeline.Json
