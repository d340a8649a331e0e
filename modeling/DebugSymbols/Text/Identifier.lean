/-!
# Identifiers

Names in a symbol file may hold any text. In the model they are C
identifiers: every other character becomes an underscore.
-/

namespace DebugSymbols.Text

def isWordChar (c : Char) : Bool :=
  c.isAlphanum || c == '_'

def identifier (name : String) : String :=
  String.ofList (name.toList.map fun c => if isWordChar c then c else '_')

end DebugSymbols.Text
