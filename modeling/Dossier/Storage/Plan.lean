import Dossier.Storage.Command
import Dossier.Storage.Estimate
import Dossier.Storage.Terms

/-!
How the records that meet a condition are visited. Unique columns have indexes, by which records are found or
come in order. Of several ways the one that is estimated to cost least is taken; the estimates take a table for
a million records, whatever it holds. A choice decides in which order records come, and which expressions are
evaluated on them.
-/

namespace Dossier

mutual

/-- A visit: what no record decides is checked first, then the records of a source are tested. -/
inductive Plan where
  | visit (settled : List Expression) (source : Source) (tests : List Expression)

/-- Where records come from. -/
inductive Source where
  /-- All of them, as they were added. -/
  | all
  /-- All of them, in the order of a column. -/
  | ordered (column : String) (descending : Bool)
  /-- Those that have one of the values, in the order of the values. -/
  | having (column : String) (values : List Expression) (descending : Bool)
  /-- Those of each visit that no visit before it has found. -/
  | anyOf (visits : List Plan)

end

instance : Inhabited Plan := ⟨.visit [] .all []⟩

namespace Plan

/-- What a choice depends on besides the condition. -/
structure Aim where
  /-- The columns with indexes, in the order in which they are tried. -/
  indexes : List String
  /-- The estimated size of a record. -/
  width : Int
  /-- The estimated size of an entry of an index. -/
  entry : Int
  /-- The columns that are looked at anywhere. -/
  used : List String
  /-- The number of results for each record. -/
  results : Nat
  /-- The keys that records are to be in the order of. -/
  keys : List SortKey
  /-- Whether it is enough that records with the same keys are next to each other. -/
  grouped : Bool
  /-- Whether the order of the keys is wanted even then. -/
  sorted : Bool
  /-- The number of records that are asked for, if it is a small one. -/
  limit : Option Nat

namespace Aim

/-- Whether an index alone has all that is looked at. -/
def isCovered (aim : Aim) (column : String) : Bool := aim.used.all (· == column)

/-- Visits by parts of a disjunction serve no order. -/
def withoutOrder (aim : Aim) : Aim := { aim with keys := [], grouped := false, sorted := false, limit := none }

end Aim

/-- How a table is entered. -/
inductive Access where
  | all
  | ordered (column : String)
  | having (column : String) (values : List Expression)
  /-- By the parts of the disjunction that is the term at a position. -/
  | divided (position : Nat) (parts : List Expression)

/-- An access with estimates of its cost and of the number of records it finds. -/
structure Route where
  access : Access
  cost : Int
  size : Int
  /-- The index whose order could serve. -/
  order : Option String

/-! ### Estimates -/

/-- The number of records in a table. -/
def tableSize : Int := 200

/-- What it takes to read a record. -/
def readCost : Int := 16

/-- What it takes to find an entry in an index. -/
def searchCost : Int := Estimate.logarithm tableSize

/-- What it takes to go on to the next entry of an index. -/
def stepCost (aim : Aim) : Int := 1 + 15 * aim.entry / aim.width

/-- The number of records left of `start` by all terms but the one at a position. -/
def leftBy (terms : List Expression) (skipped : Option Nat) (start : Int) : Int :=
  let counted := terms.zipIdx.filter fun (term, position) => some position != skipped && term.looksAtRecords
  let reduction := if counted.any fun (term, _) => term.equality?.isSome then 20 else 0
  min (start - counted.length) (tableSize - reduction)

/-- The disjunctions that say a column has one of some values, last ones first, with their positions. -/
def memberships (terms : List Expression) : List (Nat × String × List Expression) :=
  (terms.zipIdx.filterMap fun (term, position) => term.membership?.map (position, ·)).reverse

/-- The terms by which a column can be looked up, with their positions. -/
def lookups (terms : List Expression) (column : String) : List (Nat × List Expression) :=
  (terms.zipIdx.filterMap fun (term, position) => term.equality?.bind fun (name, value) =>
    if name == column then some (position, [value]) else none) ++
  (memberships terms).filterMap fun (position, name, values) =>
    if name == column then some (position, values) else none

/-- The route by a lookup. -/
def lookupRoute (aim : Aim) (terms : List Expression) (order : Option String) (column : String)
    (lookup : Nat × List Expression) : Route :=
  let (position, values) := lookup
  let found := Estimate.sum searchCost (stepCost aim)
  let once := if aim.isCovered column then found else Estimate.sum found readCost
  let times := if values.length < 2 then 0 else Estimate.ofCount values.length
  ⟨.having column values, once + times, leftBy terms (some position) times, order⟩

/-- The number of terms at the front that need no more than an index. -/
def coveredTerms (terms : List Expression) (column : String) : Nat :=
  let base := terms.takeWhile (·.isOnlyOn column)
  if base.length < terms.length then base.length
  else base.length + ((memberships terms).takeWhile fun (_, name, _) => name == column).length

/-- The route through all entries of an index. -/
def orderedRoute (aim : Aim) (terms : List Expression) (order : Option String) (column : String) : Route :=
  let entries := tableSize + stepCost aim
  let cost :=
    if aim.isCovered column then entries
    else Estimate.sum entries (tableSize + readCost - coveredTerms terms column)
  ⟨.ordered column, cost, leftBy terms none tableSize, order⟩

def isColumn (column : String) (key : SortKey) : Bool := key.expression.columnName? == some column

/-- The routes by an index. All of its entries are of use in their order, or if they are smaller than records. -/
def indexRoutes (aim : Aim) (terms : List Expression) (column : String) : List Route :=
  let helps := aim.keys.any (isColumn column)
  let order := if helps then some column else none
  let through :=
    if helps || (aim.isCovered column && aim.entry < aim.width) then [orderedRoute aim terms order column] else []
  through ++ (lookups terms column).map (lookupRoute aim terms order column)

/-- Keeps the cheaper cost and the smaller size. -/
def better (known : Option (Int × Int)) (route : Int × Int) : Option (Int × Int) :=
  match known with
  | none => some route
  | some (cost, size) => if route.1 ≤ cost then some (route.1, min size route.2) else some (cost, size)

/-- The estimates of the best route for a part of a disjunction, which must be a lookup. -/
def partEstimate (aim : Aim) (nested : Expression → Option (Int × Int)) (terms : List Expression) :
    Option (Int × Int) :=
  let lookups := aim.indexes.flatMap fun column => (lookups terms column).map fun lookup =>
    let route := lookupRoute aim terms none column lookup
    (route.cost, route.size)
  (lookups ++ terms.filterMap nested).foldl better none

/-- The estimates of a visit by the parts of a disjunction, which are as many as the fuel at most. -/
def dividedEstimate (aim : Aim) : Nat → Expression → Option (Int × Int)
  | 0, _ => none
  | fuel + 1, term =>
    if term.isDivisible then
      match term.disjuncts.mapM fun part => partEstimate aim (dividedEstimate aim fuel) part.conjuncts with
      | some (first :: rest) =>
        let (cost, size) := rest.foldl (fun (cost, size) part =>
          (Estimate.sum cost part.1, Estimate.sum size part.2)) first
        some (cost + 1, size)
      | _ => none
    else none

/-- The routes by parts of disjunctions. -/
def dividedRoutes (aim : Aim) (terms : List Expression) : List Route :=
  terms.zipIdx.filterMap fun (term, position) =>
    (dividedEstimate aim term.choices term).map fun (cost, size) =>
      ⟨.divided position term.disjuncts, cost, size, none⟩

/-! ### Choice -/

/-- Adds a route unless one that serves the same order is as good; it takes the place of those that it is as
good as. -/
def addRoute (route : Route) : List Route → List Route
  | [] => [route]
  | known :: rest =>
    if known.order != route.order then known :: addRoute route rest
    else if known.cost ≤ route.cost && known.size ≤ route.size then known :: rest
    else if route.cost ≤ known.cost && route.size ≤ known.size then
      route :: rest.filter fun other =>
        !(other.order == route.order && route.cost ≤ other.cost && route.size ≤ other.size)
    else known :: addRoute route rest

/-- The routes that no other one makes needless. -/
def routes (aim : Aim) (terms : List Expression) : List Route :=
  let whole : Route := ⟨.all, tableSize + readCost, leftBy terms none tableSize, none⟩
  (aim.indexes.flatMap (indexRoutes aim terms) ++ dividedRoutes aim terms).foldl
    (fun routes route => addRoute route routes) [whole]

/-- Whether the first rank comes before the second. -/
def before (a b : Int × Int × Int) : Bool :=
  a.1 < b.1 || (a.1 == b.1 && (a.2.1 < b.2.1 || (a.2.1 == b.2.1 && a.2.2 < b.2.2)))

/-- The first of the routes whose rank is least. -/
def least (rank : Route → Int × Int × Int) : List Route → Option Route
  | [] => none
  | route :: rest =>
    match least rank rest with
    | some other => if before (rank other) (rank route) then some other else some route
    | none => some route

/-- The cost of a route without regard to order. -/
def Route.plainCost (route : Route) : Int := Estimate.sum route.cost 0

def plainRank (route : Route) : Int × Int × Int := (route.plainCost, route.size, route.plainCost)

/-! ### Order -/

/-- Whether nulls are to come where their order does not put them. -/
def displacesNulls (key : SortKey) : Bool := key.nullsFirst == some key.descending

/-- Whether a term leaves one value for a key. -/
def fixes (key : SortKey) (term : Expression) : Bool :=
  match key.expression with
  | .column name => term.subject? == some name
  | _ => false

/-- A key, and whether it is served. -/
abbrev Mark := SortKey × Bool

/-- Marks the key that the order of a column serves. For records that are only to be next to each other it can
be any of the keys that are left, and else it must be the first of them. -/
def markColumn (isServed : SortKey → Bool) (grouped : Bool) : List Mark → Option (List Mark)
  | [] => none
  | (key, true) :: rest => (markColumn isServed grouped rest).map ((key, true) :: ·)
  | (key, false) :: rest =>
    if isServed key then some ((key, true) :: rest)
    else if grouped then (markColumn isServed grouped rest).map ((key, false) :: ·)
    else none

/-- How many of the keys at the front an access serves; nothing if that is left open. -/
def served (terms : List Expression) (keys : List SortKey) (grouped : Bool) (access : Access) : Option Nat :=
  let marked := keys.map fun key => (key, terms.any (fixes key))
  let count (marked : List Mark) : Nat :=
    if marked.all (·.2) then keys.length else (marked.takeWhile (·.2)).length
  let byColumn (isServed : SortKey → Bool) : Option Nat :=
    match markColumn isServed grouped marked with
    | some marked =>
      let isDecided (key : SortKey) : Bool := key.expression.looksAtRecords || key.expression.isSettled
      if marked.all fun (key, mark) => mark || isDecided key then some keys.length else none
    | none => some (count marked)
  match access with
  | .all => some (count marked)
  | .ordered column => byColumn (isColumn column)
  | .having column _ => byColumn fun key => isColumn column key && !displacesNulls key
  | .divided _ _ => some 0

/-- The direction in which the order of a column serves the keys. -/
def direction (terms : List Expression) (keys : List SortKey) (access : Access) : Bool :=
  let first := keys.find? fun key => !terms.any (fixes key)
  match access, first with
  | .ordered column, some key | .having column _, some key => isColumn column key && key.descending
  | _, _ => false

/-- The cost of sorting so many records that are in the order of the first keys. -/
def sortCost (aim : Aim) (size : Int) (sorted : Nat) : Int :=
  let count := aim.keys.length
  let partly := if sorted = 0 then 0 else Estimate.ofCount ((count - sorted) * 100 / count) - 66
  let (extra, least) : Int × Int := match aim.limit with
    | some limit => (if sorted = 0 then 10 else 16, min size (Estimate.ofCount limit))
    | none => (0, size)
  size + Estimate.ofCount ((aim.results + 59) / 30) + partly + extra + Estimate.logarithm least

/-- The rank of a route for ordered records, of which there are so many. -/
def orderedRank (aim : Aim) (terms : List Expression) (size : Int) (route : Route) : Int × Int × Int :=
  let plain := route.plainCost
  match served terms aim.keys aim.grouped route.access with
  | some sorted =>
    if sorted < aim.keys.length then (Estimate.sum plain (sortCost aim size sorted) + 3, route.size, plain)
    else (plain, route.size, plain - 2)
  | none => (plain, route.size, plain - 2)

/-! ### Plans -/

/-- What can be tested on the entries of an index comes first. -/
def indexFirst (column : String) (terms : List Expression) : List Expression :=
  terms.filter (·.isOnlyOn column) ++ terms.filter fun term => !term.isOnlyOn column

/-- The terms that visits by the parts of a disjunction share. -/
def sharedTerms (position : Nat) (terms : List Expression) : List Expression :=
  (terms.zipIdx.filter fun (term, other) =>
    other != position && !term.isSettled && (term.subject?.isSome || term.isDisjunction)).map Prod.fst

/-- The visit along a route. Every visit by parts has fewer disjunctions to choose from, so their number is
enough fuel. -/
def ofRoute (aim : Aim) : Nat → List Expression → Bool → Access → Plan
  | fuel, terms, descending, access =>
    let settled := terms.filter (·.isSettled)
    let tests := terms.filter (!·.isSettled)
    match access, fuel with
    | .ordered column, _ => .visit settled (.ordered column descending) (indexFirst column tests)
    | .having column values, _ => .visit settled (.having column values descending) (indexFirst column tests)
    | .divided position parts, fuel + 1 =>
      let shared := sharedTerms position terms
      let others := ((terms.zipIdx.filter fun (_, other) => other != position).map Prod.fst).filter (!·.isSettled)
      .visit settled (.anyOf (parts.map fun part =>
        let terms := part.conjuncts ++ shared
        let access := ((least plainRank (routes aim terms)).map (·.access)).getD .all
        ofRoute aim fuel terms false access)) others
    | _, _ => .visit settled .all tests

/-- A plan, and whether its records come in the order that is asked for. -/
structure Choice where
  plan : Plan
  isOrdered : Bool
  /-- Whether records of which it is enough that they are next to each other come in the order of the keys. -/
  isSorted : Bool

/-- The value of the first index that a term gives a value. -/
def single? (aim : Aim) (terms : List Expression) : Option Access :=
  aim.indexes.findSome? fun column => terms.findSome? fun term => term.equality?.bind fun (name, value) =>
    if name == column then some (.having column [value]) else none

/-- The most keys that the order of a visit can serve. -/
def mostKeys : Nat := 63

/-- The cheapest plan. One record at most is in every order. A route that looks values up rules out those that
do not, once the number of records is known. -/
def choose (aim : Aim) (terms : List Expression) : Choice :=
  let fuel := terms.foldl (fun fuel term => fuel + term.choices) 0
  let isServable := aim.keys.length ≤ mostKeys
  match single? aim terms with
  | some access => ⟨ofRoute aim.withoutOrder fuel terms false access, isServable, false⟩
  | none =>
    let routes := routes (if isServable then aim else aim.withoutOrder) terms
    let whole : Route := ⟨.all, 0, 0, none⟩
    let plain := (least plainRank routes).getD whole
    if aim.keys.isEmpty || !isServable then
      ⟨ofRoute aim.withoutOrder fuel terms false plain.access, isServable, false⟩
    else
      let left := match plain.access with
        | .having _ _ => routes.filter fun route => match route.access with
          | .having _ _ => true
          | _ => false
        | _ => routes
      let size := if plain.size < 0 then 1 else plain.size + 1
      let access := ((least (orderedRank aim terms size) left).getD whole).access
      let serves (grouped : Bool) := served terms aim.keys grouped access == some aim.keys.length
      let isSorted := aim.sorted && serves aim.grouped && serves false
      let descending := (!aim.grouped || isSorted) && direction terms aim.keys access
      ⟨ofRoute aim.withoutOrder fuel terms descending access, serves aim.grouped, isSorted⟩

end Plan

end Dossier
