import Pagefold.Json.Value

/-! # Tables of a TOML document

A document is a tree of tables.  A table is made by its header, or on the way to a table or a value
below it; a header makes each table once, and dotted keys add only to tables that dotted keys have
made (`Node.insert`, `Node.open?`, `Node.extend?`). -/

namespace Pagefold.Toml

inductive Node where
  | value (value : Json)
  /-- A table.  `implied` tables have had no header yet, and `dotted` ones were made by a dotted
  key. -/
  | table (implied dotted : Bool) (entries : List (String × Node))
  /-- A list of tables, the newest one first. -/
  | tables (items : List Node)

namespace Node

/-- A table without entries. -/
def fresh (implied dotted : Bool) : Node := table implied dotted []

/-- Gives a key its node, in the place of an earlier one. -/
def put (key : String) (node : Node) (entries : List (String × Node)) : List (String × Node) :=
  (key, node) :: entries.filter (·.1 != key)

/-- Changes the table at the end of a path, of which missing tables are made on the way.  By dotted
keys (`byKey`) only tables that have had no header can be entered.  In a list of tables the newest
is meant. -/
def update (byKey : Bool) (change : Node → Option Node) : List String → Node → Option Node
  | [], node => change node
  | key :: path, table implied dotted entries =>
    let child? :=
      match entries.lookup key with
      | none => update byKey change path (fresh true byKey)
      | some (value _) => none
      | some (tables (newest :: others)) =>
        (update byKey change path newest).map fun newest => tables (newest :: others)
      | some (tables []) => none
      | some (table implied dotted entries) =>
        if byKey && !implied then none else update byKey change path (table implied dotted entries)
    child?.map fun child => table implied dotted (put key child entries)
  | _ :: _, _ => none

/-- Gives a key of a table a value.  The key is new, and a table that a dotted key leads to was made
by one. -/
def assign (direct : Bool) (key : String) (json : Json) : Node → Option Node
  | table implied dotted entries =>
    if dotted == direct || (entries.lookup key).isSome then none
    else some (table implied dotted ((key, value json) :: entries))
  | _ => none

/-- Gives the last key of a path a value. -/
def insert (path : List String) (json : Json) (node : Node) : Option Node :=
  match path.getLast? with
  | some key => update true (assign (path.length == 1) key json) path.dropLast node
  | none => none

/-- Makes the table of a header. -/
def open? (path : List String) (node : Node) : Option Node :=
  let make (key : String) : Node → Option Node
    | table implied dotted entries =>
      match entries.lookup key with
      | none => some (table implied dotted ((key, fresh false false) :: entries))
      | some (table true false inner) =>
        some (table implied dotted (put key (table false false inner) entries))
      | some _ => none
    | _ => none
  path.getLast?.bind fun key => update false (make key) path.dropLast node

/-- Adds a table to the list of a header. -/
def extend? (path : List String) (node : Node) : Option Node :=
  let add (key : String) : Node → Option Node
    | table implied dotted entries =>
      match entries.lookup key with
      | none => some (table implied dotted ((key, tables [fresh false false]) :: entries))
      | some (tables items) =>
        some (table implied dotted (put key (tables (fresh false false :: items)) entries))
      | some _ => none
    | _ => none
  path.getLast?.bind fun key => update false (add key) path.dropLast node

mutual

/-- A node as a value. -/
def toJson : Node → Json
  | value json => json
  | table _ _ entries => .ofFields (toFields entries)
  | tables items => .array (toItems items).reverse

def toFields : List (String × Node) → List (String × Json)
  | [] => []
  | (key, node) :: rest => (key, node.toJson) :: toFields rest

def toItems : List Node → List Json
  | [] => []
  | node :: rest => node.toJson :: toItems rest

end

end Node

end Pagefold.Toml
