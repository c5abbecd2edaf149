import Scratchpad.Language
import Scratchpad.Python.Report
import Scratchpad.Script.Report
import Scratchpad.Typed.Strip

/-!
The way of a snippet to instrumented code: markers become reports, types and exports go, and then
output calls, loops and expressions are instrumented. Every line stays where it was.
-/
namespace Scratchpad.Instrument

open Text (Diagnostic)

def preprocess (code : String) (language : Language) (options : Options) : String :=
  if !options.magicComments then code
  else .ofList <|
    match language with
    | .javascript | .typescript => Script.markMagicComments options code.toList
    | .python => Python.markMagicComments options code.toList

def transpile (code : String) (language : Language) : Except Diagnostic String :=
  match language with
  | .javascript => (Script.transpile code.toList).map .ofList
  | .typescript => (Typed.transpile code.toList).map .ofList
  | .python => (Python.check code.toList).map fun _ => code

def postprocess (code : String) (language : Language) (options : Options) : String :=
  .ofList <|
    match language with
    | .javascript | .typescript => Script.instrument options code.toList
    | .python => Python.instrument options code.toList

/-- What becomes of code that could not be transpiled: output calls and loops are instrumented in
the code as it is, unless the language is strict. -/
def recover (source : String) (language : Language) (options : Options) (fault : Diagnostic) :
    Except Diagnostic String :=
  if language.isStrict then .error fault
  else .ok (postprocess source language { options with wrapExpressions := false })

def transform (code : String) (language : Language) (options : Options) :
    Except Diagnostic String :=
  let source := preprocess code language options
  match transpile source language with
  | .ok transpiled => .ok (postprocess transpiled language options)
  | .error fault => recover source language options fault

end Scratchpad.Instrument
