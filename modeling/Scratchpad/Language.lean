/-! The languages that snippets are written in. -/
namespace Scratchpad

inductive Language where
  | javascript
  | typescript
  | python
deriving DecidableEq, Repr

namespace Language

def all : List Language := [.javascript, .typescript, .python]

/-- An order in which all languages are visited. -/
structure Order where
  languages : List Language
  perm : languages.Perm all

def Order.usual : Order := ⟨all, .refl _⟩

def name : Language → String
  | .javascript => "javascript"
  | .typescript => "typescript"
  | .python => "python"

/-- A strict language has no degraded form: what cannot be transpiled is refused. -/
def isStrict : Language → Bool
  | .typescript => true
  | _ => false

/-- Whether blocks stand in braces. -/
def hasBraces : Language → Bool
  | .python => false
  | _ => true

/-- Lower case of ASCII letters; other characters stay. -/
def lower (s : String) : String := .ofList (s.toList.map Char.toLower)

/-- The language with exactly this name. -/
def ofName? (s : String) : Option Language := all.find? (·.name == s)

/-- The language with this name or an alias of it, in letters of either case. -/
def ofAlias? (s : String) : Option Language :=
  match lower s with
  | "javascript" | "js" | "node" => some .javascript
  | "typescript" | "ts" => some .typescript
  | "python" | "py" | "python3" => some .python
  | _ => none

/-- What is said of a name that no language goes by. -/
def unknownMessage (s : String) : String :=
  s!"unknown language '{lower s}' (expected javascript, typescript or python)"

def ofExtension? (s : String) : Option Language :=
  match lower s with
  | "js" | "mjs" | "cjs" | "jsx" => some .javascript
  | "ts" | "mts" | "cts" | "tsx" => some .typescript
  | "py" => some .python
  | _ => none

end Language

end Scratchpad
