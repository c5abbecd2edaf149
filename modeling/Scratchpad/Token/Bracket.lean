import Scratchpad.Token.Lexed

/-! Brackets among tokens: which close which, and the first one that does not fit. -/
namespace Scratchpad.Token

open Text (Diagnostic Fault)

/-- The closing bracket of an opening one. -/
def closer? : String → Option String
  | "(" => some ")"
  | "[" => some "]"
  | "\x7b" => some "\x7d"
  | _ => none

def isOpener (text : String) : Bool := (closer? text).isSome

def isCloser (text : String) : Bool := text == ")" || text == "]" || text == "\x7d"

/-- Matching in progress: the open brackets, innermost first, and the partners found so far. -/
structure Matching where
  stack : List (Nat × String) := []
  partners : Array (Option Nat)

/-- A closing bracket that does not fit the innermost open one is passed over. -/
def Matching.step (m : Matching) (i : Nat) (t : Token) : Matching :=
  if t.kind = .punct then
    if isOpener t.text then { m with stack := (i, t.text) :: m.stack }
    else match m.stack with
    | [] => m
    | (j, opener) :: stack =>
      if closer? opener = some t.text then
        ⟨stack, (m.partners.setIfInBounds j (some i)).setIfInBounds i (some j)⟩
      else m
  else m

def matchFrom (m : Matching) (i : Nat) : List Token → Matching
  | [] => m
  | t :: ts => matchFrom (m.step i t) (i + 1) ts

/-- For each token the index of the bracket it is paired with. -/
def partners (tokens : Array Token) : Array (Option Nat) :=
  (matchFrom ⟨[], .replicate tokens.size none⟩ 0 tokens.toList).partners

/-- The first closing bracket that does not fit, or else the outermost one left open. -/
def bracketFault (stack : List Token) : List Token → Option Diagnostic
  | [] => stack.getLast?.map fun t => ⟨⟨t.line, t.column⟩, .neverClosed t.text⟩
  | t :: ts =>
    if t.kind = .punct && isOpener t.text then bracketFault (t :: stack) ts
    else if t.kind = .punct && isCloser t.text then
      match stack with
      | o :: stack =>
        if closer? o.text = some t.text then bracketFault stack ts
        else some ⟨⟨t.line, t.column⟩, .unexpected t.text⟩
      | [] => some ⟨⟨t.line, t.column⟩, .unexpected t.text⟩
    else bracketFault stack ts

end Scratchpad.Token

namespace Scratchpad.Lexed

open Text (Diagnostic)

def bracketFault (x : Lexed) : Option Diagnostic := Token.bracketFault [] x.tokens.toList

/-- What a reader of the whole text would be told first; brackets count last. -/
def firstFault (x : Lexed) : Option Diagnostic := x.diagnostics.head?.or x.bracketFault

end Scratchpad.Lexed
