import Argus.Lib.Json
import Argus.Lib.Relational

namespace Argus.Backup

open Relational

/-!
# Backup — the tables of the two databases

Both databases are one `Relational.Db` over the names of all their tables; `database` says
which of the two a table belongs to.  A row is the JSON object that the query builder returns
for it.  Of the columns only the ids and the foreign keys matter; what PostgreSQL otherwise
makes of a row (types, defaults, keys) is an `Engine`.

* `TableName` — every `pgTable` of `master/schema.ts` and `telemetry/schema.ts`.
* `masterTableOrder`, `telemetryTableOrder` — the tables a backup knows.
* `ordered_master`, `ordered_telemetry` — both lists put parents first, and the foreign keys
  of the schema never leave them.
-/

inductive Database
  | master
  | telemetry
deriving DecidableEq, Repr

/-- What a backup captures: both databases, the master one or the telemetry one. -/
inductive BackupScope
  | all
  | config
  | data
deriving DecidableEq, Repr

namespace BackupScope

def name : BackupScope → String
  | all => "all"
  | config => "config"
  | data => "data"

/-- The databases of a scope. -/
def captures : BackupScope → Database → Bool
  | all, _ => true
  | config, d => decide (d = .master)
  | data, d => decide (d = .telemetry)

end BackupScope

/-- The tables, by the names the schema modules export. -/
inductive TableName
  | users
  | groups
  | roles
  | permissions
  | rolePermissions
  | groupRoles
  | userGroups
  | userAttributes
  | agents
  | agentKeys
  | secrets
  | settings
  | oidcProviders
  | monitors
  | snmpProfiles
  | mibObjects
  | retentionConfig
  | refreshTokens
  | agentCommands
  | wallLayouts
  | wallDeviceGroups
  | wallDevices
  | tickerMessages
  | publicConfig
  | clientMeta
  | statusEvents
  | clientEvents
  | hostMetrics
  | pingSamples
  | hostInventory
  | dbMetrics
  | storageMetrics
  | folderMetrics
  | processMetrics
  | snmpMetrics
  | logs
  | auditLog
  | uptimeBuckets
  | notifications
  | unitStates
deriving DecidableEq, Repr

namespace TableName

/-- The tables of `master/schema.ts`. -/
def masterTables : List TableName :=
  [users, groups, roles, permissions, rolePermissions, groupRoles, userGroups, userAttributes,
    agents, agentKeys, secrets, settings, oidcProviders, monitors, snmpProfiles, mibObjects,
    retentionConfig, refreshTokens, agentCommands, wallLayouts, wallDeviceGroups, wallDevices,
    tickerMessages, publicConfig, clientMeta]

/-- The tables of `telemetry/schema.ts`. -/
def telemetryTables : List TableName :=
  [statusEvents, clientEvents, hostMetrics, pingSamples, hostInventory, dbMetrics,
    storageMetrics, folderMetrics, processMetrics, snmpMetrics, logs, auditLog, uptimeBuckets,
    notifications, unitStates]

/-- The schema module a table is defined in. -/
def database (t : TableName) : Database :=
  if t ∈ telemetryTables then .telemetry else .master

/-- The key of a table in a bundle. -/
def name : TableName → String
  | users => "users"
  | groups => "groups"
  | roles => "roles"
  | permissions => "permissions"
  | rolePermissions => "rolePermissions"
  | groupRoles => "groupRoles"
  | userGroups => "userGroups"
  | userAttributes => "userAttributes"
  | agents => "agents"
  | agentKeys => "agentKeys"
  | secrets => "secrets"
  | settings => "settings"
  | oidcProviders => "oidcProviders"
  | monitors => "monitors"
  | snmpProfiles => "snmpProfiles"
  | mibObjects => "mibObjects"
  | retentionConfig => "retentionConfig"
  | refreshTokens => "refreshTokens"
  | agentCommands => "agentCommands"
  | wallLayouts => "wallLayouts"
  | wallDeviceGroups => "wallDeviceGroups"
  | wallDevices => "wallDevices"
  | tickerMessages => "tickerMessages"
  | publicConfig => "publicConfig"
  | clientMeta => "clientMeta"
  | statusEvents => "statusEvents"
  | clientEvents => "clientEvents"
  | hostMetrics => "hostMetrics"
  | pingSamples => "pingSamples"
  | hostInventory => "hostInventory"
  | dbMetrics => "dbMetrics"
  | storageMetrics => "storageMetrics"
  | folderMetrics => "folderMetrics"
  | processMetrics => "processMetrics"
  | snmpMetrics => "snmpMetrics"
  | logs => "logs"
  | auditLog => "auditLog"
  | uptimeBuckets => "uptimeBuckets"
  | notifications => "notifications"
  | unitStates => "unitStates"

end TableName

open TableName

/-- `MASTER_TABLE_ORDER`. -/
def masterTableOrder : List TableName :=
  [users, groups, roles, permissions, rolePermissions, groupRoles, userGroups, userAttributes,
    agents, agentKeys, secrets, settings, oidcProviders, monitors, retentionConfig,
    refreshTokens, agentCommands, wallLayouts, wallDeviceGroups, wallDevices, tickerMessages,
    publicConfig]

/-- `TELEMETRY_TABLE_ORDER`. -/
def telemetryTableOrder : List TableName :=
  [unitStates, statusEvents, clientEvents, hostMetrics, dbMetrics, storageMetrics, logs,
    auditLog, uptimeBuckets, notifications]

/-- The order a database is dumped and restored in. -/
def Database.tableOrder : Database → List TableName
  | .master => masterTableOrder
  | .telemetry => telemetryTableOrder

/-! ### Rows and the schema -/

/-- A row: a JSON value as a running program holds it, with no field twice. -/
structure Row where
  json : Json
  wf : json.wf = true

/-- A column with an id in it; `none` for SQL's `NULL`. -/
def Row.column (c : String) (r : Row) : Option String :=
  match r.json.field c with
  | some (.str s) => some s
  | _ => none

/-- The `references(...)` of the two schema modules. -/
def foreignKeys : TableName → List (ForeignKey TableName Row String)
  | rolePermissions =>
    [⟨roles, Row.column "roleId", true⟩, ⟨permissions, Row.column "permissionId", true⟩]
  | groupRoles => [⟨groups, Row.column "groupId", true⟩, ⟨roles, Row.column "roleId", true⟩]
  | userGroups => [⟨users, Row.column "userId", true⟩, ⟨groups, Row.column "groupId", true⟩]
  | userAttributes => [⟨users, Row.column "userId", true⟩]
  | agentKeys => [⟨agents, Row.column "agentId", true⟩]
  | monitors => [⟨agents, Row.column "agentId", true⟩]
  | refreshTokens => [⟨users, Row.column "userId", true⟩]
  | agentCommands => [⟨agents, Row.column "agentId", true⟩]
  | wallDeviceGroups => [⟨wallLayouts, Row.column "layoutId", false⟩]
  | wallDevices =>
    [⟨wallLayouts, Row.column "layoutId", false⟩, ⟨wallDeviceGroups, Row.column "groupId", false⟩]
  | _ => []

/-- What PostgreSQL and its driver do with the rows of a table: the row that is kept for one
    that is inserted, the constraints of a table on its own rows, and the text of an error. -/
structure Engine where
  store : TableName → Row → Row
  ok : TableName → List Row → Bool
  /-- Types, `NOT NULL` and keys are never broken by taking rows away. -/
  ok_of_append : ∀ t xs ys, ok t (xs ++ ys) = true → ok t xs = true
  message : Stmt TableName Row → String

def Engine.schema (E : Engine) : Schema TableName Row String where
  tables := masterTables ++ telemetryTables
  foreignKeys := foreignKeys
  id := Row.column "id"
  store := E.store
  ok := E.ok
  ok_of_append := E.ok_of_append

/-! ### The orders put parents first -/

theorem name_injective : Function.Injective name := by
  have h : ∀ a ∈ masterTables ++ telemetryTables, ∀ b ∈ masterTables ++ telemetryTables,
      a.name = b.name → a = b := by decide +kernel
  have hall : ∀ t : TableName, t ∈ masterTables ++ telemetryTables := by
    intro t
    cases t <;> decide
  exact fun a b => h a (hall a) b (hall b)

variable {E : Engine}

theorem foreignKeys_irrefl : ∀ t, ∀ fk ∈ foreignKeys t, fk.parent ≠ t := by
  intro t
  cases t <;> simp [foreignKeys]

theorem ordered_master : E.schema.Ordered masterTableOrder where
  nodup := by decide
  parents := by
    show masterTableOrder.Pairwise (fun a b => ∀ fk ∈ foreignKeys a, fk.parent ≠ b)
    decide
  irrefl := foreignKeys_irrefl
  closed := by
    show ∀ t, ∀ fk ∈ foreignKeys t, (t ∈ masterTableOrder ↔ fk.parent ∈ masterTableOrder)
    intro t
    cases t <;> simp [foreignKeys] <;> decide

theorem ordered_telemetry : E.schema.Ordered telemetryTableOrder where
  nodup := by decide
  parents := by
    show telemetryTableOrder.Pairwise (fun a b => ∀ fk ∈ foreignKeys a, fk.parent ≠ b)
    decide
  irrefl := foreignKeys_irrefl
  closed := by
    show ∀ t, ∀ fk ∈ foreignKeys t, (t ∈ telemetryTableOrder ↔ fk.parent ∈ telemetryTableOrder)
    intro t
    cases t <;> simp [foreignKeys] <;> decide

theorem ordered_tableOrder (d : Database) : E.schema.Ordered d.tableOrder := by
  cases d with
  | master => exact ordered_master
  | telemetry => exact ordered_telemetry

/-- No row that a cascade deletes is referred to, so `Schema.cleared` follows every cascade
    to its end. -/
theorem cascade_not_parent {t c : TableName} {fk fk' : ForeignKey TableName Row String}
    (hfk : fk ∈ foreignKeys t) (hcascade : fk.cascade = true) (hfk' : fk' ∈ foreignKeys c) :
    fk'.parent ≠ t := by
  have hparents : ∀ c, ∀ fk ∈ foreignKeys c,
      fk.parent ∈ [users, groups, roles, permissions, agents, wallLayouts, wallDeviceGroups] := by
    intro c
    cases c <;> decide
  have hnone : ∀ t ∈ [users, groups, roles, permissions, agents, wallLayouts, wallDeviceGroups],
      ∀ fk ∈ foreignKeys t, fk.cascade = false := by decide
  rintro rfl
  rw [hnone _ (hparents c fk' hfk') fk hfk] at hcascade
  exact Bool.noConfusion hcascade

/-- The two orders have no table in common. -/
theorem disjoint_orders : ∀ t ∈ masterTableOrder, t ∉ telemetryTableOrder := by decide

theorem database_of_master : ∀ t ∈ masterTableOrder, t.database = .master := by decide

theorem database_of_telemetry : ∀ t ∈ telemetryTableOrder, t.database = .telemetry := by decide

end Argus.Backup
