import KuzuEventBus.Engine.Branches
import KuzuEventBus.Gql.OnStore
import KuzuEventBus.Lib.Mutexes

/-!
# The Python bindings

`casys_pyo3/src/lib.rs`: an engine with one store for each branch that has been opened, shared by
all handles of the branch, and the calls on the engine and on the handles.  A mutex guards the
engine and one guards each store; a panic poisons those that are held.  The interpreter lock is held
during a call, so calls do not overlap.

The keys of a dict are given by their text, as `to_string` gives it.  The statistics of a query
result are left out.

## Main definitions

* `PyValue`, `pyToJson`, `pyToValue`, `jsonToPy` — Python objects, and their conversions.
* `CasysEngine`, `CasysBranch` — the state, and handles.
* `Call`, `Call.program`, `step` — the calls.
-/

namespace KuzuEventBus.Sdk.Bindings

open EffectM Mutexes

/-! ### Objects -/

/-- A Python object, as far as the bindings tell objects apart. -/
inductive PyValue where
  | none
  | bool (b : Bool)
  | int (i : ℤ)
  | float (f : Float)
  | str (s : String)
  | list (items : List PyValue)
  | tuple (items : List PyValue)
  | dict (entries : List (String × PyValue))
  /-- An object of another class. -/
  | other

/-- The exceptions the bindings raise. -/
inductive PyException where
  /-- `PyRuntimeError`. -/
  | runtimeError (msg : String)
  /-- `PyValueError`. -/
  | valueError (msg : String)
  deriving DecidableEq

/-- An exception, or a panic. -/
abbrev PyErr := Raised PyException

/-- An integer as the nearest float, the even one of two; there is none past the largest. -/
def floatOfInt (i : ℤ) : Option Float :=
  let e := i.natAbs.log2 - 52
  let kept := i.natAbs / 2 ^ e
  let lost := i.natAbs % 2 ^ e
  let up := 2 ^ e < 2 * lost ∨ 2 ^ e = 2 * lost ∧ kept % 2 = 1
  let rounded := if up then kept + 1 else kept
  if rounded * 2 ^ e < 2 ^ 1024 then
    let f := (UInt64.ofNat rounded).toFloat.scaleB e
    some (if i < 0 then -f else f)
  else none

/-- The integers `extract::<i64>` takes. -/
def IsI64 (i : ℤ) : Prop := -2 ^ 63 ≤ i ∧ i < 2 ^ 63

instance (i : ℤ) : Decidable (IsI64 i) := by unfold IsI64; infer_instance

/-- `Number::from_f64`, or null. -/
def jsonOfFloat (f : Float) : Json := if f.isFinite then .number (.float f) else .null

mutual

/-- `py_to_json`: an integer that is no `i64` becomes a float. -/
def pyToJson : PyValue → Except PyErr Json
  | .none => .ok .null
  | .bool b => .ok (.bool b)
  | .int i =>
    if IsI64 i then .ok (.number (.ofInt64 (Int64.ofInt i)))
    else
      match floatOfInt i with
      | some f => .ok (jsonOfFloat f)
      | none => .error (.error (.valueError "Unsupported Python type for JSON conversion"))
  | .float f => .ok (jsonOfFloat f)
  | .str s => .ok (.string s)
  | .list items => (pyToJsonItems items).map .array
  | .tuple items => (pyToJsonItems items).map .array
  | .dict entries => (pyToJsonEntries entries).map fun fields =>
    .object (Json.ofMap id ((∅ : HashMap String Json).insertAll fields))
  | .other => .error (.error (.valueError "Unsupported Python type for JSON conversion"))

/-- The items of a list or a tuple. -/
def pyToJsonItems : List PyValue → Except PyErr (List Json)
  | [] => .ok []
  | v :: vs => do
    let j ← pyToJson v
    let js ← pyToJsonItems vs
    pure (j :: js)

/-- The entries of a dict. -/
def pyToJsonEntries : List (String × PyValue) → Except PyErr (List (String × Json))
  | [] => .ok []
  | (k, v) :: kvs => do
    let j ← pyToJson v
    let js ← pyToJsonEntries kvs
    pure ((k, j) :: js)

end

/-- `py_to_value`. -/
def pyToValue : PyValue → Except PyErr Value
  | .none => .ok .null
  | .bool b => .ok (.bool b)
  | .int i =>
    if IsI64 i then .ok (.int (Int64.ofInt i))
    else
      match floatOfInt i with
      | some f => .ok (.float f)
      | none => .error (.error (.valueError "Unsupported Python type for Value conversion"))
  | .float f => .ok (.float f)
  | .str s => .ok (.string s)
  | .list _ | .tuple _ | .dict _ | .other =>
    .error (.error (.valueError "Unsupported Python type for Value conversion"))

mutual

/-- `json_to_py`. -/
def jsonToPy : Json → PyValue
  | .null => .none
  | .bool b => .bool b
  | .number n =>
    match n.asI64 with
    | some i => .int i.toInt
    | none =>
      match n.asF64 with
      | some f => .float f
      | none => .none
  | .string s => .str s
  | .array items => .list (jsonToPyItems items)
  | .object fields => .dict (jsonToPyFields fields)

/-- The items of an array. -/
def jsonToPyItems : List Json → List PyValue
  | [] => []
  | j :: js => jsonToPy j :: jsonToPyItems js

/-- The fields of an object. -/
def jsonToPyFields : List (String × Json) → List (String × PyValue)
  | [] => []
  | (k, j) :: fields => (k, jsonToPy j) :: jsonToPyFields fields

end

/-- The properties `add_node` and `add_edge` make of a dict. -/
def pyToProperties (entries : List (String × PyValue)) : Except PyErr Properties := do
  let fields ← entries.mapM fun kv => (pyToValue kv.2).map fun v => (kv.1, v)
  pure ((∅ : Properties).insertAll fields)

/-- The parameters `query` makes of a dict; there are none when it is empty. -/
def pyToParams (params : Option (List (String × PyValue))) :
    Except PyErr (Option (HashMap String Json)) := do
  let fields ← pyToJsonEntries (params.getD [])
  let json := (∅ : HashMap String Json).insertAll fields
  pure (if json.entries.isEmpty then none else some json)

/-! ### The state -/

/-- A handle of a branch, with the names `open_branch` has checked. -/
structure CasysBranch where
  dbName : DatabaseName
  branchName : BranchName

/-- The key of a branch in `stores`. -/
def branchKey (dbName branchName : String) : String := dbName ++ "/" ++ branchName

/-- The key of the store of a handle. -/
def CasysBranch.key (b : CasysBranch) : String := branchKey b.dbName.asStr b.branchName.asStr

/-- The mutexes: that of the engine, and those of the stores. -/
inductive Lock where
  | engine
  | store (key : String)
  deriving DecidableEq

/-- What the mutexes guard: the files of the engine, and the stores of the branches. -/
structure Shared where
  files : FileSystem
  stores : HashMap String InMemoryGraphStore

/-- `CasysEngine`. -/
abbrev CasysEngine := Mutexes Lock Shared

/-- `CasysEngine::new` on a data directory with the given files. -/
def CasysEngine.new (files : FileSystem) : CasysEngine := ⟨fun _ => false, files, ∅⟩

/-- The store at a key; a store that `or_insert_with` makes is empty. -/
def storeAt (s : CasysEngine) (key : String) : InMemoryGraphStore :=
  (s.data.stores.lookup key).getD .new

/-- A computation of a call. -/
abbrev PyM := EffectM PyErr CasysEngine

/-- An error of the engine as an exception; a panic goes on. -/
def mapErr {α : Type} (toPy : EngineError → PyException) : Except Fault α → Except PyErr α
  | .ok a => .ok a
  | .error (.error e) => .error (.error (toPy e))
  | .error (.panic msg) => .error (.panic msg)

/-- `map_err(|e| PyRuntimeError::new_err(format!("{context}: {:?}", e)))`. -/
def orRuntimeError {α : Type} (context : String) (r : Except Fault α) : PyM α :=
  ofExcept (mapErr (fun e => .runtimeError (context ++ ": " ++ e.debug)) r)

/-- `map_err(|e| PyValueError::new_err(format!("{context}: {:?}", e)))`. -/
def orValueError {α : Type} (context : String) (r : Except Fault α) : PyM α :=
  ofExcept (mapErr (fun e => .valueError (context ++ ": " ++ e.debug)) r)

/-- The store under a key is replaced. -/
def setStoreAt (key : String) (store : InMemoryGraphStore) (s : CasysEngine) : CasysEngine :=
  { s with data := { s.data with stores := s.data.stores.insert key store } }

/-- The files are replaced. -/
def setFiles (files : FileSystem) (s : CasysEngine) : CasysEngine :=
  { s with data := { s.data with files := files } }

def readStore (key : String) : PyM InMemoryGraphStore := do return storeAt (← get) key

def writeStoreAt (key : String) (store : InMemoryGraphStore) : PyM PUnit :=
  modify (setStoreAt key store)

def readFiles : PyM FileSystem := do return (← get).data.files

def writeFiles (files : FileSystem) : PyM PUnit := modify (setFiles files)

/-! ### The calls -/

/-- What the calls depend on: the text of manifests and of segments, the character tables of the
lexer, and the data directory. -/
structure Setup where
  codec : ManifestCodec
  serde : Serde
  tables : CharTables
  dataDir : FilePath

/-- What a call returns. -/
inductive Reply where
  | none
  | name (name : String)
  | branch (b : CasysBranch)
  /-- The timestamps of snapshots, and the branch. -/
  | snapshots (timestamps : List Timestamp) (branch : String)
  | table (columns : List String) (rows : List (List PyValue))
  | id (id : ℕ)

/-- `Engine::open_database`. -/
def openDatabaseHandle (name : String) : PyM DatabaseName :=
  orRuntimeError "Failed to open database" (DatabaseName.tryFrom name)

/-- `Engine::open_branch`. -/
def openBranchHandle (branch : String) : PyM BranchName :=
  orRuntimeError "Failed to open branch" (BranchName.tryFrom branch)

section Calls

variable (setup : Setup)

/-- `CasysEngine::open_database`. -/
def openDatabase (name : String) : PyM Reply :=
  withLock .engine do
    let _ ← openDatabaseHandle name
    pure (.name name)

/-- `CasysEngine::open_branch`: the store of the branch is made if there is none. -/
def openBranch (dbName branchName : String) : PyM Reply :=
  withLock .engine do
    let db ← openDatabaseHandle dbName
    let branch ← openBranchHandle branchName
    let store ← readStore (branchKey dbName branchName)
    writeStoreAt (branchKey dbName branchName) store
    pure (.branch ⟨db, branch⟩)

/-- `CasysEngine::create_branch`: always from `main`. -/
def createBranch (dbName branchName : String) (clock : Clock) : PyM Reply :=
  withLock .engine do
    let db ← openDatabaseHandle dbName
    let files ← readFiles
    let files ← orRuntimeError "Failed to create branch" (Engine.createBranch setup.codec files
      setup.dataDir db "main" branchName none clock.nowMs clock.tmpTs)
    writeFiles files
    pure .none

/-- `CasysEngine::list_snapshots`. -/
def listSnapshots (dbName branchName : String) : PyM Reply :=
  withLock .engine do
    let db ← openDatabaseHandle dbName
    let branch ← openBranchHandle branchName
    let files ← readFiles
    let timestamps ← orRuntimeError "Failed to list snapshots"
      (FsBackend.listSnapshotTimestamps setup.codec files setup.dataDir db branch)
    pure (.snapshots timestamps branchName)

/-- The rows and columns of a result. -/
def tableReply (result : KuzuEventBus.QueryResult) : Reply :=
  .table (result.columns.map ColumnMeta.name) (result.rows.map fun row => row.map jsonToPy)

/-- The query of `CasysBranch::query` on the store; what it has written before it fails stays. -/
def queryStore (b : CasysBranch) (gql : String) (params : Option (HashMap String Json)) :
    PyM Reply := do
  let store ← readStore b.key
  let answer := executeGqlOnStore setup.tables store gql params
  writeStoreAt b.key answer.2
  let result ← orRuntimeError "Execution error" answer.1
  pure (tableReply result)

/-- `CasysBranch::query`. -/
def query (b : CasysBranch) (gql : String) (params : Option (List (String × PyValue))) :
    PyM Reply := do
  let params ← ofExcept (pyToParams params)
  withLock (.store b.key) (withLock .engine (queryStore setup b gql params))

/-- `CasysBranch::flush`. -/
def flush (b : CasysBranch) : PyM Reply := do
  let db ← orValueError "Invalid database name" (DatabaseName.tryFrom b.dbName.asStr)
  let branch ← orValueError "Invalid branch name" (BranchName.tryFrom b.branchName.asStr)
  withLock .engine do
    let db ← openDatabaseHandle db.asStr
    let branch ← openBranchHandle branch.asStr
    withLock (.store b.key) do
      let store ← readStore b.key
      let files ← readFiles
      writeFiles (Engine.flushBranch setup.serde setup.dataDir db branch files store)
      pure .none

/-- `CasysBranch::load`. -/
def load (b : CasysBranch) : PyM Reply := do
  let db ← orValueError "Invalid database name" (DatabaseName.tryFrom b.dbName.asStr)
  let branch ← orValueError "Invalid branch name" (BranchName.tryFrom b.branchName.asStr)
  withLock .engine do
    let db ← openDatabaseHandle db.asStr
    let branch ← openBranchHandle branch.asStr
    let files ← readFiles
    let loaded ← orRuntimeError "Load error"
      (Engine.loadBranch setup.serde files setup.dataDir db branch)
    withLock (.store b.key) do
      writeStoreAt b.key loaded
      pure .none

end Calls

/-- What `add_node` and `add_edge` do with the store: an id, and the store that is written. -/
def writeGraph (b : CasysBranch) (context : String) (properties : List (String × PyValue))
    (write : InMemoryGraphStore → Properties → Except Fault (ℕ × InMemoryGraphStore)) :
    PyM Reply :=
  withLock (.store b.key) do
    let properties ← ofExcept (pyToProperties properties)
    let store ← readStore b.key
    let written ← orRuntimeError context (write store properties)
    writeStoreAt b.key written.2
    pure (.id written.1)

/-- `CasysBranch::add_node`. -/
def addNode (b : CasysBranch) (labels : List String) (properties : List (String × PyValue)) :
    PyM Reply :=
  writeGraph b "Add node error" properties fun store ps => store.addNode labels ps

/-- `CasysBranch::add_edge`. -/
def addEdge (b : CasysBranch) (fromId toId : ℕ) (edgeType : String)
    (properties : List (String × PyValue)) : PyM Reply :=
  writeGraph b "Add edge error" properties fun store ps => store.addEdge fromId toId edgeType ps

/-- A call on the engine, or on a handle. -/
inductive Call where
  | openDatabase (name : String)
  | openBranch (dbName branchName : String)
  | createBranch (dbName branchName : String) (clock : Clock)
  | listSnapshots (dbName branchName : String)
  | query (b : CasysBranch) (gql : String) (params : Option (List (String × PyValue)))
  | flush (b : CasysBranch)
  | load (b : CasysBranch)
  | addNode (b : CasysBranch) (labels : List String) (properties : List (String × PyValue))
  | addEdge (b : CasysBranch) (fromId toId : ℕ) (edgeType : String)
      (properties : List (String × PyValue))

/-- What a call runs. -/
def Call.program (setup : Setup) : Call → PyM Reply
  | .openDatabase name => Bindings.openDatabase name
  | .openBranch dbName branchName => Bindings.openBranch dbName branchName
  | .createBranch dbName branchName clock => Bindings.createBranch setup dbName branchName clock
  | .listSnapshots dbName branchName => Bindings.listSnapshots setup dbName branchName
  | .query b gql params => Bindings.query setup b gql params
  | .flush b => Bindings.flush setup b
  | .load b => Bindings.load setup b
  | .addNode b labels properties => Bindings.addNode b labels properties
  | .addEdge b fromId toId edgeType properties =>
    Bindings.addEdge b fromId toId edgeType properties

/-- A call: its reply, and the engine after it. -/
def step (setup : Setup) (s : CasysEngine) (c : Call) : Except PyErr Reply × CasysEngine :=
  (c.program setup).run s

end KuzuEventBus.Sdk.Bindings
