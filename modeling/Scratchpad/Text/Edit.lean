import Scratchpad.Text.Position

/-! Insertions into a text and replacements of parts of it, applied all at once. -/
namespace Scratchpad.Text

/-- What an edit does, in the order in which edits at one place are applied. -/
inductive Edit.Kind where
  /-- Inserts the end of something that started earlier. -/
  | close
  /-- Inserts the beginning of something. -/
  | opens
  | replace
deriving DecidableEq, Repr

def Edit.Kind.rank : Edit.Kind → Nat
  | .close => 0
  | .opens => 1
  | .replace => 2

/-- `text` takes the place of the characters from `start` up to `stop`. -/
structure Edit where
  start : Nat
  stop : Nat
  kind : Edit.Kind
  text : String
deriving DecidableEq, Repr

namespace Edit

def openAt (at_ : Nat) (text : String) : Edit := ⟨at_, at_, .opens, text⟩

def closeAt (at_ : Nat) (text : String) : Edit := ⟨at_, at_, .close, text⟩

/-- The line breaks of a piece of text. -/
def lineBreaks (cs : List Char) : String := .ofList (cs.filter (· = '\n'))

/-- Takes everything but the line breaks out. -/
def blank (source : List Char) (start stop : Nat) : Edit :=
  ⟨start, stop, .replace, lineBreaks (slice source start stop)⟩

/-- Order of application. -/
def le (a b : Edit) : Bool :=
  a.start < b.start || (a.start == b.start && a.kind.rank ≤ b.kind.rank)

/-- In an ordered list, the edits that start at or behind the end of the last one kept. -/
def keep (size cursor : Nat) : List Edit → List Edit
  | [] => []
  | e :: es =>
    if cursor ≤ e.start ∧ e.start ≤ e.stop ∧ e.stop ≤ size then e :: keep size e.stop es
    else keep size cursor es

/-- The text with disjoint ordered edits carried out; `rest` is what stands from `cursor` on. -/
def splice (cursor : Nat) (rest : List Char) : List Edit → List Char
  | [] => rest
  | e :: es =>
    rest.take (e.start - cursor) ++ e.text.toList
      ++ splice e.stop (rest.drop (e.stop - cursor)) es

/-- An edit that reaches into an earlier one is dropped; edits at one place keep their order. -/
def apply (edits : List Edit) (source : List Char) : List Char :=
  splice 0 source (keep source.length 0 (edits.mergeSort le))

end Edit

end Scratchpad.Text
