import DleynaCore.Library.HashTable
import DleynaCore.Library.Transition

/-!
# Connector modules

`connector-mgr.c`, with how often each module was opened and closed. Of GModule it is assumed that a module
which is opened again is the same one with one more reference, that it stays open until its last reference
is closed, and that a module always returns the same interface.
-/

namespace DleynaCore

/-- A `GModule *`. -/
abbrev GModule := Nat

/-- A `const dleyna_connector_t *` that is not `NULL`. -/
abbrev Connector := Nat

/-- What the modules are that can be opened. -/
structure ModuleLib where
  /-- The module at a path. -/
  moduleAt : String → GModule
  /-- What `dleyna_connector_get_interface` of the module returns, if the module has this symbol. -/
  getInterface : GModule → Option Connector

/-- The table `g_connectors`. -/
abbrev ConnectorTable := HashTable Connector Connector GModule id

/-- The static data of `connector-mgr.c`, with the state of GModule. -/
structure ConnectorMgr where
  gConnectors : Option ConnectorTable
  /-- How often each module was opened. -/
  opened : GModule → Nat
  /-- How often each module was closed. -/
  closed : GModule → Nat
  /-- How many calls GLib has rejected because the table was `NULL`. -/
  rejected : Nat

namespace ConnectorMgr

/-- The connector's entry in the table, if there is a table. -/
def entry (mgr : ConnectorMgr) (connector : Connector) : Option GModule :=
  mgr.gConnectors.bind fun table => table.find? connector

/-- There are references to the module. -/
def IsOpen (mgr : ConnectorMgr) (module : GModule) : Prop := mgr.closed module < mgr.opened module

/-- From the one state to the other, each module was closed as often as it was opened. -/
def Matched (mgr mgr' : ConnectorMgr) : Prop :=
  ∀ m, ∃ n, mgr'.opened m = mgr.opened m + n ∧ mgr'.closed m = mgr.closed m + n

end ConnectorMgr

/-! ## GLib -/

/-- `g_module_open`, which succeeds if `opens`. -/
def gModuleOpen (lib : ModuleLib) (mgr : ConnectorMgr) (path : String) (opens : Bool) :
    Option GModule × ConnectorMgr :=
  if opens then
    let module := lib.moduleAt path
    (some module,
      { mgr with opened := fun m => if m = module then mgr.opened m + 1 else mgr.opened m })
  else (none, mgr)

/-- `g_module_close`. -/
def gModuleClose (mgr : ConnectorMgr) (module : GModule) : ConnectorMgr :=
  { mgr with closed := fun m => if m = module then mgr.closed m + 1 else mgr.closed m }

/-- `g_hash_table_lookup` in `g_connectors`. GLib rejects `NULL`. -/
def gConnectorsLookup (mgr : ConnectorMgr) (connector : Connector) : Option GModule × ConnectorMgr :=
  match mgr.gConnectors with
  | some table => (table.find? connector, mgr)
  | none => (none, { mgr with rejected := mgr.rejected + 1 })

/-! ## Functions of `connector-mgr.c` -/

/-- The path of a connector: `"%s/%s%s.so"`, with `DLEYNA_CONNECTOR_LIB_PATTERN`. -/
def connectorPath (connectorDir name : String) : String :=
  connectorDir ++ "/" ++ "libdleyna-connector-" ++ name ++ ".so"

/-- `dleyna_connector_mgr_load`, with the connector it returns, unless that is `NULL`. -/
def dleynaConnectorMgrLoad (lib : ModuleLib) (connectorDir : String) (mgr : ConnectorMgr)
    (name : String) (opens : Bool) : Option Connector × ConnectorMgr :=
  let (module, mgr1) := gModuleOpen lib mgr (connectorPath connectorDir name) opens
  match module with
  | some module =>
    let table := mgr1.gConnectors.getD .empty
    match lib.getInterface module with
    | some connector =>
      (some connector, { mgr1 with gConnectors := some (table.insert connector module) })
    | none => (none, gModuleClose { mgr1 with gConnectors := some table } module)
  | none => (none, mgr1)

/-- `dleyna_connector_mgr_release`. -/
def dleynaConnectorMgrRelease (mgr : ConnectorMgr) (connector : Connector) : ConnectorMgr :=
  let (module, mgr1) := gConnectorsLookup mgr connector
  match module with
  | some module =>
    let mgr2 := gModuleClose mgr1 module
    let table := mgr2.gConnectors.map fun table => table.erase connector
    -- the table is destroyed when it is empty
    { mgr2 with gConnectors := table.filter fun table => table.size ≠ 0 }
  | none => mgr1

/-! ## Clients -/

/-- The manager with the loads that were not released yet: the connectors and their modules. -/
structure ConnectorClient where
  mgr : ConnectorMgr
  held : List (Connector × GModule)

/-- A call of the client. -/
inductive ConnectorOp where
  /-- A load, in which the module can be opened or not. -/
  | load (name : String) (opens : Bool)
  | release (connector : Connector)
  deriving DecidableEq, Repr

namespace ConnectorClient

/-- Load a connector. -/
def load (lib : ModuleLib) (connectorDir : String) (s : ConnectorClient) (name : String) (opens : Bool) :
    ConnectorClient :=
  let (connector, mgr) := dleynaConnectorMgrLoad lib connectorDir s.mgr name opens
  { mgr := mgr
    held := match connector with
      | some connector => (connector, lib.moduleAt (connectorPath connectorDir name)) :: s.held
      | none => s.held }

/-- Release a connector. -/
def release (s : ConnectorClient) (connector : Connector) : ConnectorClient where
  mgr := dleynaConnectorMgrRelease s.mgr connector
  held := s.held.eraseP fun h => h.1 = connector

end ConnectorClient

/-- Clients that release only what they hold. -/
def connectorClient (lib : ModuleLib) (connectorDir : String) :
    System ConnectorClient ConnectorOp Empty where
  init :=
    { mgr := { gConnectors := none, opened := fun _ => 0, closed := fun _ => 0, rejected := 0 }
      held := [] }
  guard s
    | .load _ _ => True
    | .release connector => connector ∈ s.held.map Prod.fst
  step s
    | .load name opens => .ok (s.load lib connectorDir name opens)
    | .release connector => .ok (s.release connector)

instance (lib : ModuleLib) (connectorDir : String) :
    ∀ s op, Decidable ((connectorClient lib connectorDir).guard s op)
  | _, .load _ _ => inferInstanceAs (Decidable True)
  | _, .release _ => inferInstanceAs (Decidable (_ ∈ _))

/-! ## What the manager should guarantee -/

/-- The modules are open exactly as long as they are held: those that are held are open, and no others;
no module is closed more often than it was opened, and when nothing is held each was closed as often; and
the table is there when it is looked into. -/
structure OpenWhileHeld (s : ConnectorClient) : Prop where
  isOpen : ∀ m, s.mgr.IsOpen m ↔ m ∈ s.held.map Prod.snd
  closed : ∀ m, s.mgr.closed m ≤ s.mgr.opened m
  allClosed : s.held = [] → ∀ m, s.mgr.opened m = s.mgr.closed m
  notRejected : s.mgr.rejected = 0

/-- A load does not return a connector that is held. -/
def LoadsAnew (lib : ModuleLib) (connectorDir : String) (s : ConnectorClient) : ConnectorOp → Prop
  | .load name opens => opens = true →
    ∀ h ∈ s.held, lib.getInterface (lib.moduleAt (connectorPath connectorDir name)) ≠ some h.1
  | .release _ => True

instance (lib : ModuleLib) (connectorDir : String) (s : ConnectorClient) :
    ∀ op, Decidable (LoadsAnew lib connectorDir s op)
  | .load _ opens => inferInstanceAs (Decidable (opens = true → _))
  | .release _ => inferInstanceAs (Decidable True)

end DleynaCore
