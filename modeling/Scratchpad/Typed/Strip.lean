import Scratchpad.Script.Export
import Scratchpad.Typed.Binding
import Scratchpad.Typed.Class
import Scratchpad.Typed.Namespace

/-! Typed script code becomes plain script code: types go and every line stays where it was. -/
namespace Scratchpad.Typed

open Text (Diagnostic Edit)

variable (o : Outline)

/-- A pass and the index where reading goes on. -/
abbrev Reading := Except Diagnostic (Pass × Nat)

/-- The first token of a declaration behind `export`. -/
def isExported (i : Nat) : Bool := 0 < i && o.is (i - 1) "export" && o.startsStatement (i - 1)

/-- The brace of an interface body, type arguments passed over. -/
def interfaceBrace (j : Nat) : Nat :=
  if j < o.size then
    if o.is j "\x7b" then j
    else
      match if o.is j "<" then o.pastAngles j else none with
      | some ⟨next, _⟩ => interfaceBrace next
      | none => interfaceBrace (j + 1)
  else j
termination_by o.size - j
decreasing_by all_goals omega

/-- Takes the tokens from `i` through `last` out and goes on behind them. -/
def Pass.drop (s : Pass) (i last : Nat) : Pass × Nat := (s.remove o i last, last + 1)

def Pass.interfaceAt (s : Pass) (i : Nat) : Reading :=
  match o.closing? (interfaceBrace o (i + 2)) with
  | some ⟨close, _⟩ => .ok (s.drop o i close)
  | none => .error (faultAt o i .interfaceWithoutBody)

def Pass.aliasAt (s : Pass) (i : Nat) : Reading := do
  let equals ←
    if o.is (i + 2) "<" then
      match o.pastAngles (i + 2) with
      | some ⟨next, _⟩ => .ok next
      | none => .error (faultAt o (i + 2) .unterminatedTypeParameters)
    else .ok (i + 2)
  if !o.is equals "=" then throw (faultAt o equals .aliasWithoutType)
  let stop := (o.pastType (equals + 1)).val
  return s.drop o i (if o.is stop ";" then stop else stop - 1)

def Pass.addAll (s : Pass) (r : Except Diagnostic (List Edit × Nat)) : Reading := do
  let (edits, next) ← r
  return (s.add edits, next)

/-- What a statement that starts with the word at `i` needs; none if nothing but what its words
need. The pass of the second component holds in any case. -/
def Pass.statementForm (s : Pass) (i : Nat) : Pass × Option Reading :=
  let dropped : Option Reading := some (.ok (s.drop o i (o.statementEnd i)))
  let clause : Pass := { s with clauseEnd := some (o.statementEnd i) }
  match o.text i with
  | "interface" => (s, if o.isName (i + 1) then some (s.interfaceAt o i) else none)
  | "type" =>
    if o.isName (i + 1) && o.isAny (i + 2) ["=", "<"] then (s, some (s.aliasAt o i))
    else if o.is (i + 1) "\x7b" && isExported o i then (s, dropped)
    else (s, none)
  | "declare" =>
    (s, if o.isIdent (i + 1) && !o.newlineBefore (i + 1) then dropped else none)
  | "import" =>
    if o.is (i + 1) "type" && !o.is (i + 2) "(" then (s, dropped) else (clause, none)
  | "export" => (if o.isAny (i + 1) ["\x7b", "*"] then clause else s, none)
  | "namespace" | "module" =>
    (s, if o.isName (i + 1) && o.isAny (i + 2) ["\x7b", "."] then
      some (s.addAll (namespaceAt o i)) else none)
  | "abstract" =>
    (s, if o.is (i + 1) "class" then some (.ok (s.add [wordRemoval o i], i + 1)) else none)
  | "enum" =>
    (s, if o.isName (i + 1) then some (s.addAll (enumeration o i i)) else none)
  | "const" =>
    (s, if o.is (i + 1) "enum" && o.isName (i + 2) then
      some (s.addAll (enumeration o i (i + 1))) else none)
  | _ => (s, none)

/-- A parameter list followed by a block makes a method. -/
def Pass.methodAt (s : Pass) (name open_ : Nat) : Pass :=
  match o.closing? open_ with
  | some ⟨close, _⟩ =>
    if o.is (typeAt o (close + 1)).2 "\x7b" then s.parameters o .method name open_ else s
  | none => s

def Pass.functionAt (s : Pass) (i : Nat) : Pass :=
  let j := if o.is (i + 1) "*" then i + 2 else i + 1
  let j := if o.isIdent j then j + 1 else j
  let (generics, j) :=
    match if o.is j "<" then o.pastAngles j else none with
    | some ⟨next, _⟩ => ([removal o j (next - 1)], next)
    | none => ([], j)
  let s := s.add generics
  if o.is j "(" then s.parameters o .function i j else s

/-- `as` or `satisfies` behind a value on the same line, and not in an import or export clause. -/
def Pass.isCast (s : Pass) (i : Nat) : Bool :=
  0 < i && !o.newlineBefore i && !s.inClause i &&
    match o.kind? (i - 1) with
    | some .ident => !Script.isKeyword (o.text (i - 1)) || o.is (i - 1) "this"
    | some .punct => o.isAny (i - 1) [")", "]", "\x7d", "!"]
    | some _ => true
    | none => false

/-- The type of a cast goes with the blanks in front of it. -/
def Pass.castAt (s : Pass) (i : Nat) : Pass × Nat :=
  let stop := if o.is (i + 1) "const" then i + 2 else (o.pastType (i + 1)).val
  if i + 1 < stop then
    (s.add [.blank o.source (o.stop (i - 1)) (o.stop (stop - 1))], stop)
  else (s, i + 1)

/-- The index behind type arguments of a call or of `new` that start right behind the name `i`. -/
def callArguments (i : Nat) : Option Nat := do
  if !(o.is (i + 1) "<" && o.touchesNext i) then none
  let stop ← o.pastAngles (i + 1)
  let typeLike := (Outline.upTo (i + 2) (stop.val - 1)).all fun k =>
    fitsTypeArgument (o.kind? k) (o.text k)
  let created := 0 < i && o.is (i - 1) "new"
  if typeLike && (o.is stop.val "(" || created) then some stop.val else none

def Pass.nameAt (s : Pass) (i : Nat) : Pass × Nat :=
  match callArguments o i with
  | some stop =>
    let s := s.remove o (i + 1) (stop - 1)
    (if o.is stop "(" then s.methodAt o i stop else s, stop)
  | none => (if o.is (i + 1) "(" then s.methodAt o i (i + 1) else s, i + 1)

def Pass.wordAt (s : Pass) (i : Nat) : Pass × Nat :=
  let word := o.text i
  if word == "class" then s.classAt o i
  else if word == "function" then (s.functionAt o i, i + 1)
  else if ["let", "const", "var"].contains word then (s.add (bindingEdits o (i + 1)), i + 1)
  else if word == "catch" && o.is (i + 1) "(" then (s.parameters o .catch i (i + 1), i + 1)
  else if ["as", "satisfies"].contains word && s.isCast o i then s.castAt o i
  else if Script.isKeyword word then (s, i + 1)
  else s.nameAt o i

/-- Whether the bracket at `i` opens the parameters of an arrow function. -/
def isArrow (i : Nat) : Bool :=
  match o.closing? i with
  | some ⟨close, _⟩ =>
    o.is (close + 1) "=>"
      || (o.is (close + 1) ":" && o.is (o.pastType (close + 2)).val "=>")
  | none => false

/-- A mark right behind a value that asserts the value to be there. -/
def isAssertion (i : Nat) : Bool :=
  0 < i && (o.isName (i - 1) || o.isAny (i - 1) [")", "]"]) && o.touchesNext (i - 1)
    && !o.is (i + 1) "="

/-- The index behind the type parameters of an arrow function. -/
def arrowGenerics (i : Nat) : Option Nat := do
  if !(i = 0 || o.isAny (i - 1) ["=", "(", ",", ":", "?", "=>", "return"]) then none
  let stop ← o.pastAngles i
  let close ← o.closingOf? stop.val "("
  if o.isAny (close.val + 1) ["=>", ":"] then some stop.val else none

def Pass.punctAt (s : Pass) (i : Nat) : Pass × Nat :=
  match o.text i with
  | "(" => (if isArrow o i then s.parameters o .arrow i i else s, i + 1)
  | "!" => (if isAssertion o i then s.remove o i i else s, i + 1)
  | "<" =>
    match arrowGenerics o i with
    | some stop => (s.remove o i (stop - 1), stop)
    | none => (s, i + 1)
  | _ => (s, i + 1)

def Pass.step (s : Pass) (i : Nat) : Reading :=
  match o.kind? i with
  | some .ident =>
    if o.startsStatement i || isExported o i then
      match s.statementForm o i with
      | (_, some reading) => reading
      | (s', none) => .ok (s'.wordAt o i)
    else .ok (s.wordAt o i)
  | some .punct => .ok (s.punctAt o i)
  | _ => .ok (s, i + 1)

def Pass.run (s : Pass) (i : Nat) : Except Diagnostic Pass :=
  if i < o.size then
    match s.step o i with
    | .ok (s', next) => run s' (max next (i + 1))
    | .error fault => .error fault
  else .ok s
termination_by o.size - i
decreasing_by omega

/-- Plain script code of a typed script. -/
def transpile (source : List Char) : Except Diagnostic (List Char) :=
  let x := tokenize .script source
  match x.firstFault with
  | some fault => .error fault
  | none => do
    let s ← Pass.run x.outline { edits := Script.exportEdits x.outline } 0
    return Edit.apply s.edits source

end Scratchpad.Typed
