import Dossier.Filter.Compiled
import Dossier.Filter.Field
import Dossier.Filter.Order
import Dossier.Search.Traits

/-!
Queries under construction, and the statement they compile to. Fields, filters, groups and orderings are
collected as predicates with numbering of their own; the statement numbers all placeholders anew, in the
order SELECT, WHERE, GROUP BY, ORDER BY.
-/

namespace Dossier

open Sql (Dialect Predicate quoteIdentifier renumber)

structure Query where
  kind : Kind
  dialect : Dialect
  fields : List Predicate := []
  landings : List (String × Landing) := []
  filters : List Predicate := []
  groups : List Predicate := []
  orders : List Predicate := []
  limit : Limit := .all
  offset : Option Nat := none
  count : Bool := false
  deriving Inhabited

/-- A statement with its parameters and what is needed to decode the rows it returns. -/
structure Statement where
  sql : String
  params : List Json
  landings : List (String × Landing)
  kind : Kind
  count : Bool
  dialect : Dialect
  deriving Repr, Inhabited

namespace Query

/-- The name of a selected field in result rows. -/
def resultName (position : Nat) : Landing → String
  | .column name => name
  | .payload _ _ => "_f" ++ toString position
  | .related => relatedName

def addField (query : Query) (expression : Predicate) (landing : Landing) : Query :=
  let name := resultName query.fields.length landing
  let field := Predicate.ofParts (expression.format ++ " AS " ++ quoteIdentifier name) expression.params
  { query with fields := query.fields ++ [field], landings := query.landings ++ [(name, landing)] }

def addColumn (query : Query) (column : Column) : Query :=
  query.addField (Predicate.ofParts (quoteIdentifier column.name) []) (.column column.name)

def addAllFields (query : Query) : Query := query.kind.columns.foldl addColumn query

/-- A filter that every record meets adds nothing. -/
def addFilter (query : Query) (predicate : Predicate) : Query :=
  if predicate.isEmpty then query else { query with filters := query.filters ++ [predicate] }

def addGroup (query : Query) (predicate : Predicate) : Query :=
  { query with groups := query.groups ++ [predicate] }

def addOrder (query : Query) (predicate : Predicate) : Query :=
  { query with orders := query.orders ++ [predicate] }

def addSelection (target : Target) (query : Query) : Selection → Except CompileFault Query
  | .all => .ok query.addAllFields
  | .fields fields => fields.foldlM (fun query field => do
    let (expression, landing) ← target.compileField field
    return query.addField expression landing) query

def addGroups (target : Target) (matchAny : Bool) (query : Query) (entries : List Json) :
    Except CompileFault Query :=
  entries.foldlM (fun query entry => return query.addGroup (← target.compileOrder matchAny entry)) query

def addOrders (target : Target) (matchAny : Bool) (query : Query) (entries : List Json) :
    Except CompileFault Query :=
  entries.foldlM (fun query entry => return query.addOrder (← target.compileOrder matchAny entry)) query

/-- The query of a search with the given filter and traits. -/
def ofTraits? (target : Target) (filter : Json) (traits : Traits) : Except CompileFault Query := do
  let query ← addSelection target ⟨target.kind, target.dialect, [], [], [], [], [], .all, none, false⟩
    traits.fields
  let query := query.addFilter (← target.compile traits.matchAny filter)
  let query ← query.addGroups target traits.matchAny traits.group
  let query ← query.addOrders target traits.matchAny traits.order
  return { query with limit := traits.limit, offset := traits.offset, count := traits.count }

def listed (predicates : List Predicate) : String :=
  String.intercalate ", " (predicates.map (·.format))

def selectText (query : Query) : String :=
  "SELECT " ++ (if query.count then "COUNT(*) AS \"count\"" else listed query.fields) ++
    " FROM " ++ quoteIdentifier query.kind.table

def whereText (query : Query) : String :=
  if query.filters.isEmpty then ""
  else " WHERE " ++ (Predicate.join query.filters Connective.and.word).format

def groupText (query : Query) : String :=
  if query.groups.isEmpty then "" else " GROUP BY " ++ listed query.groups

def limitText (query : Query) : String :=
  match query.limit, query.dialect with
  | .rows count, _ => " LIMIT " ++ toString count
  | .all, .postgres => " LIMIT ALL"
  | .all, .sqlite => " LIMIT -1"

def offsetText (query : Query) : String :=
  match query.offset with
  | some offset => " OFFSET " ++ toString offset
  | none => ""

/-- Ordering and paging, which a count does without. -/
def orderText (query : Query) : String :=
  if query.count then ""
  else
    (if query.orders.isEmpty then "" else " ORDER BY " ++ listed query.orders) ++ query.limitText ++
      query.offsetText

/-- The statement's text before its placeholders are numbered anew. -/
def draft (query : Query) : String :=
  query.selectText ++ query.whereText ++ query.groupText ++ query.orderText

/-- The parameters in the order of the clauses. -/
def params (query : Query) : List Json :=
  (if query.count then [] else query.fields.flatMap (·.params)) ++
    (Predicate.join query.filters Connective.and.word).params ++
    query.groups.flatMap (·.params) ++
    (if query.count then [] else query.orders.flatMap (·.params))

def statement? (query : Query) : Except Fault Statement :=
  if !query.count && query.fields.isEmpty then .error (.compile .noFields)
  else
    let (sql, found) := renumber query.draft
    let params := query.params
    if found != params.length then .error (.placeholders found params.length sql)
    else
      .ok ⟨sql, params, if query.count then [] else query.landings, query.kind, query.count, query.dialect⟩

end Query

end Dossier
