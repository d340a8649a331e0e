import DebugSymbols.Print.Declaration
import DebugSymbols.Print.Definition
import DebugSymbols.Stream.Listing
import DebugSymbols.SymbolTable

/-!
# The command line

One of five views of a symbol file, on standard output or into a file. Options
may stand before or after the operand; those with a value take it from the next
argument or from behind the option.
-/

namespace DebugSymbols

inductive View where
  | tags
  | types (overlay : Option UInt32)
  | decls (overlay : Option UInt32)
  | symbols
  | lines
  deriving DecidableEq, Repr

/-! ## What the views show -/

namespace View

open Text

def chosen (overlay : Option UInt32) (t : SymbolTable) : List Overlay :=
  t.overlays.filter fun o => overlay.all (· == o.id)

def typesText (o : Overlay) : String :=
  s!"// overlay {o.id}\n" ++ o.types

def declsText (o : Overlay) : String :=
  s!"// overlay {o.id} address: 0x{upperHex 8 o.addr.toNat} length: 0x{upperHex 1 o.length.toNat}\n" ++
    o.declarations

def symbolsText (o : Overlay) : String :=
  s!"// overlay {o.id}\n" ++
    String.join (o.symbols.map fun s => s!"0x{upperHex 8 s.addr.toNat} {s.name}\n")

def linesText (o : Overlay) : String :=
  s!"// overlay {o.id}\n" ++
    String.join (o.lines.map fun l => s!"0x{upperHex 8 l.addr.toNat} {l.path}:{l.line}\n")

def text (v : View) (bytes : List UInt8) : Reported (Except SymbolError String) :=
  let perOverlay (overlay : Option UInt32) (f : Overlay → String) :=
    let table := SymbolTable.ofBytes bytes
    { table with value := table.value.map fun t => String.join ((chosen overlay t).map f) }
  match v with
  | tags =>
    { value := ((SymbolFile.decode bytes).map SymbolFile.listing).mapError .format, events := [] }
  | types overlay => perOverlay overlay typesText
  | decls overlay => perOverlay overlay declsText
  | symbols => perOverlay none symbolsText
  | lines => perOverlay none linesText

end View

/-! ## Arguments -/

structure Invocation where
  verbose : Bool
  view : View
  input : String
  output : Option String
  deriving DecidableEq

namespace CommandLine

inductive Command where
  | tags | types | decls | symbols | lines
  deriving DecidableEq, Repr

def command? : String → Option Command
  | "tags" => some .tags
  | "types" => some .types
  | "decls" => some .decls
  | "symbols" => some .symbols
  | "lines" => some .lines
  | _ => none

def Command.hasOverlay : Command → Bool
  | types | decls => true
  | _ => false

structure Given where
  verbose : Bool := false
  overlay : Option UInt32 := none
  output : Option String := none
  input : Option String := none
  deriving DecidableEq

/-- A value that takes options. -/
inductive Valued where
  | overlay | output
  deriving DecidableEq

def number? (text : String) : Option UInt32 :=
  let (negative, digits) := match text.toList with
    | '-' :: cs => (true, cs)
    | '+' :: cs => (false, cs)
    | cs => (false, cs)
  let n := Text.decimal digits
  if digits = [] ∨ ¬digits.all Char.isDigit ∨ UInt32.size ≤ n ∨ (negative ∧ n ≠ 0) then none
  else some (UInt32.ofNat n)

/-- No option or operand may come twice, and no file name is empty. -/
def setValue (g : Given) (option : Valued) (value : String) : Option Given :=
  match option with
  | .overlay => if g.overlay.isSome then none else (number? value).map fun n => { g with overlay := some n }
  | .output =>
    if g.output.isSome ∨ value.isEmpty then none else some { g with output := some value }

def setVerbose (g : Given) : Option Given :=
  if g.verbose then none else some { g with verbose := true }

def setInput (g : Given) (value : String) : Option Given :=
  if g.input.isSome ∨ value.isEmpty then none else some { g with input := some value }

/-- The next argument can be a value unless it looks like an option. -/
def isValue (arg : String) : Bool :=
  arg == "-" || !arg.startsWith "-"

inductive Need where
  | nothing (g : Given)
  | value (g : Given) (option : Valued)

def letters (g : Given) : List Char → Option Need
  | [] => some (.nothing g)
  | 'v' :: cs => (setVerbose g).bind fun g => letters g cs
  | ['o'] => some (.value g .output)
  | 'o' :: '=' :: cs => (setValue g .output (String.ofList cs)).map .nothing
  | 'o' :: cs => (setValue g .output (String.ofList cs)).map .nothing
  | _ => none

def word (c : Command) (g : Given) (name : String) (value : Option String) : Option Need :=
  let option? : Option Valued :=
    if name = "output" then some .output
    else if name = "overlay" ∧ c.hasOverlay then some .overlay
    else none
  match option?, value with
  | some o, some v => (setValue g o v).map .nothing
  | some o, none => some (.value g o)
  | none, none => if name = "verbose" then (setVerbose g).map .nothing else none
  | none, some _ => none

def splitValue (cs : List Char) : String × Option String :=
  let name := String.ofList (cs.takeWhile (· != '='))
  match cs.dropWhile (· != '=') with
  | _ :: value => (name, some (String.ofList value))
  | [] => (name, none)

def afterCommand (c : Command) : Given → List String → Option Given
  | g, [] => some g
  | g, arg :: args =>
    let need : Option Need := match arg.toList with
      | ['-', '-'] => none
      | '-' :: '-' :: cs => word c g (splitValue cs).1 (splitValue cs).2
      | ['-'] => (setInput g arg).map .nothing
      | '-' :: cs => letters g cs
      | _ => (setInput g arg).map .nothing
    if arg = "--" then args.foldlM setInput g
    else match need, args with
      | none, _ => none
      | some (.nothing g), args => afterCommand c g args
      | some (.value _ _), [] => none
      | some (.value g o), value :: args =>
        if isValue value then (setValue g o value).bind fun g => afterCommand c g args else none

def beforeCommand (verbose : Bool) : List String → Option (Bool × Command × List String)
  | [] => none
  | arg :: args =>
    if arg = "-v" ∨ arg = "--verbose" then if verbose then none else beforeCommand true args
    else (command? arg).map fun c => (verbose, c, args)

/-- What the arguments ask for; none if they are not well formed. -/
def parse (args : List String) : Option Invocation := do
  let (verbose, c, rest) ← beforeCommand false args
  let g ← afterCommand c {} rest
  let input ← g.input
  let view := match c with
    | .tags => View.tags
    | .types => .types g.overlay
    | .decls => .decls g.overlay
    | .symbols => .symbols
    | .lines => .lines
  return { verbose := verbose || g.verbose, view, input, output := g.output }

def usage : String :=
  "Usage: [-v] <tags|types|decls|symbols|lines> <INPUT> [--overlay <ID>] [-o <OUTPUT>]"

def missingFile : String :=
  "No such file or directory (os error 2)"

end CommandLine

/-! ## Results -/

structure Result where
  code : UInt8
  stdout : String := ""
  /-- The file that it writes and what is in it. -/
  written : Option (String × String) := none
  failure : Option String := none
  events : List Event := []

/-- The result, given the bytes of the input or why they could not be read. -/
def Invocation.result (i : Invocation) (input : Except String (List UInt8)) : Result :=
  match input with
  | .error failure => { code := 1, failure := some failure }
  | .ok bytes =>
    let shown := i.view.text bytes
    let events := shownEvents i.verbose shown.events
    match shown.value, i.output with
    | .error e, _ => { code := 1, failure := some e.message, events }
    | .ok text, some path => { code := 0, written := some (path, text), events }
    | .ok text, none => { code := 0, stdout := text, events }

end DebugSymbols
