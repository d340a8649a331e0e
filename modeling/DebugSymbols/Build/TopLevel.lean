import DebugSymbols.Build.FunctionBody
import DebugSymbols.Build.Members

/-!
# Definitions at top level

A definition outside functions and member runs, by its symbol class. A tag takes
the run of its members with it.
-/

namespace DebugSymbols.Overlay

def definition (head : Record) (d : SymbolDef) (rest : List Record) :
    Action Inconsistency Overlay Nat :=
  let fault (cause : Cause) : Action Inconsistency Overlay Nat :=
    (Action.fail { name := Text.identifier d.name, cause }).locate head 0
  let single (m : Action Complaint Overlay Unit) : Action Inconsistency Overlay Nat := do
    m.locate head 0
    return 0
  match d.symbolClass with
  | .external => single (global head.value .external d)
  | .static => single (global head.value .static d)
  | .structTag => compositeRun .struct head d rest
  | .unionTag => compositeRun .union head d rest
  | .enumTag => enumRun head d rest
  | .typedef => single (typedef head.value d)
  | .file => single (Action.report (.sourceFile d.name))
  | .auto | .register | .registerParam | .argument | .label => fault (.localOutside d.symbolClass)
  | c => fault (.classAtTopLevel c)

end DebugSymbols.Overlay
