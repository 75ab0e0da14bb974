import Dossier.Fault
import Dossier.Json.Reader
import Dossier.Settings.Basic
import Dossier.Text.Lowercase
import Dossier.Toml.Reader

/-!
Loading of settings: defaults, then a file, then variables of the environment, each over the ones before.
Values are converted to what a setting needs where that makes sense; names nobody knows are ignored.
-/

namespace Dossier.Settings

inductive Format where
  | json
  | toml
  deriving DecidableEq, Repr, Inhabited

/-- The table of a file; its root is an object. A byte order mark may come first. -/
def fileTable (format : Format) (text : String) : Option Table :=
  let text := match text.toList with
    | '\ufeff' :: rest => String.ofList rest
    | _ => text
  match format with
  | .json => ((Json.ofText? text).bind Json.object?).map Value.ofMembers
  | .toml => Toml.ofText? text

/-! ### Layers -/

/-- A step into a value: a member, or an item of an array. -/
inductive PathStep where
  | member (name : String)
  | item
  deriving DecidableEq, Repr, Inhabited

def isTabOrSpace (c : Char) : Bool := c == ' ' || c == '\t'

/-- Whether a text is an index in brackets, without the opening one: a whole number of 64 bits. -/
def isIndex (piece : List Char) : Bool :=
  match Text.beforeEnd [']'] piece with
  | some index =>
    let index := ((index.dropWhile isTabOrSpace).reverse.dropWhile isTabOrSpace).reverse
    let (digits, most) : List Char × Nat := match index with
      | '-' :: digits => (digits, 1 <<< 63)
      | digits => (digits, (1 <<< 63) - 1)
    !digits.isEmpty && digits.all Text.isDigit && Text.digitsValue digits ≤ most
  | none => false

/-- A name and the indices after it. -/
def pathPiece (piece : List Char) : Option (List PathStep) :=
  match Text.splitAt '[' piece with
  | name :: indices =>
    if !name.isEmpty && name.all Text.isSegmentChar && indices.all isIndex then
      some (.member (String.ofList name) :: indices.map fun _ => .item)
    else none
  | [] => none

/-- The path that a name spells with points and indices; any other name is a path of one step. -/
def pathOf (name : String) : List PathStep :=
  match (Text.splitAt '.' name.toList).mapM pathPiece with
  | some steps => steps.flatten
  | none => [.member name]

/-- Lays a value over another at a path. Tables are laid over each other entry by entry; an item makes a
list. -/
def overlay (value : Value) : List PathStep → Value → Value
  | [], below =>
    match value, below with
    | .table entries, .table others =>
      .table (entries.foldl (fun all (name, v) => Table.set all name v) others)
    | _, _ => value
  | .member name :: rest, below =>
    let entries : Table := below.table?.getD []
    .table (Table.set entries name (overlay value rest ((entries.lookup name).getD .null)))
  | .item :: rest, _ => .list [overlay value rest .null]

/-- Lays the entries of a layer over those below, in the order of their names. -/
def overlayAll (layer : Table) (below : Value) : Value :=
  (layer.mergeSort fun a b => decide (a.1 ≤ b.1)).foldl
    (fun below (name, value) => overlay value (pathOf name) below) below

/-- The start of the names of variables, in any case. -/
def variableStart : List Char := "docstore_".toList

/-- The setting that a variable names. -/
def settingName (variableName : String) : Option String :=
  (Text.afterStart variableStart (Text.lowercase variableName).toList).map String.ofList

/-- What the variables of an environment say; of two names that differ in case only the later one counts. -/
def environmentLayer (environment : List (String × String)) : Table :=
  environment.foldl (fun layer (name, value) =>
    match settingName name with
    | some setting => Table.set layer setting (.text value)
    | none => layer) []

/-! ### Conversions -/

def isYes (word : String) : Bool := ["true", "on", "yes"].contains word

def isNo (word : String) : Bool := ["false", "off", "no"].contains word

def toFlag : Value → Option Bool
  | .flag b => some b
  | .whole i => some (i != 0)
  | .fraction x => some !x.isZero
  | .infinite _ | .notNumber => some true
  | .text s =>
    let word := Text.lowercase s
    if word = "1" || isYes word then some true
    else if word = "0" || isNo word then some false
    else none
  | _ => none

def maxCount : Nat := (1 <<< 64) - 1

/-- A text of decimal digits, with a plus sign at most, that is a count. -/
def digitsCount (s : String) : Option Nat :=
  let digits := match s.toList with
    | '+' :: rest => rest
    | cs => cs
  let n := Text.digitsValue digits
  if !digits.isEmpty && digits.all Text.isDigit && n ≤ maxCount then some n else none

/-- Fractions are rounded and cut off at the limits of 64 bits. -/
def toCount : Value → Option Nat
  | .flag b => some (if b then 1 else 0)
  | .whole i => if 0 ≤ i then some i.toNat else none
  | .fraction x => some (min x.round.toNat maxCount)
  | .infinite negative => some (if negative then 0 else maxCount)
  | .notNumber => some 0
  | .text s =>
    let word := Text.lowercase s
    if isYes word then some 1 else if isNo word then some 0 else digitsCount s
  | _ => none

/-- A fraction written without an exponent. -/
def plainReal (x : Binary64) : String :=
  String.ofList ((if x.negative then ['-'] else []) ++ Decimal.positional false (Decimal.shortest x))

def toText : Value → Option String
  | .text s => some s
  | .flag b => some (if b then "true" else "false")
  | .whole i => some (toString i)
  | .fraction x => some (plainReal x)
  | .infinite negative => some (if negative then "-inf" else "inf")
  | .notNumber => some "NaN"
  | _ => none

def dialectNamed (name : String) : Option Sql.Dialect :=
  match name with
  | "postgres" => some .postgres
  | "sqlite" => some .sqlite
  | _ => none

/-- A dialect is named by a text, or by the one name in a table. -/
def toDialect : Value → Option Sql.Dialect
  | .text s => dialectNamed s
  | .table [(name, _)] => dialectNamed name
  | _ => none

/-- A setting: its default when nothing is said, and nothing at all when what is said is of no use. -/
def setting (entries : Table) (name : String) (convert : Value → Option α) (default : α) : Option α :=
  match entries.lookup name with
  | some value => convert value
  | none => some default

/-! ### Settings -/

def ofTable? (entries : Table) : Option Settings := do
  let timeout ← setting entries "timeout_ms" toCount default.timeout
  let timing ← setting entries "timing" toFlag default.timing
  let dialect ← setting entries "dialect" toDialect default.dialect
  let database ← setting entries "database" toText default.database
  let logFilter ← setting entries "log_filter" toText default.logFilter
  return ⟨timeout, timing, dialect, database, logFilter⟩

/-- The settings under a file, if there is one, and an environment. -/
def load (file : Option (Format × String)) (environment : List (String × String)) : Except Fault Settings :=
  let file := match file with
    | some (format, text) => fileTable format text
    | none => some []
  let layers := file.map fun entries => overlayAll (environmentLayer environment) (overlayAll entries (.table []))
  match layers.bind fun all => ofTable? (all.table?.getD []) with
  | some settings => .ok settings
  | none => .error .settings

end Dossier.Settings
