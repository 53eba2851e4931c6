/-
  Naitron.Registry

  The tables behind `src/core/registry.c` and the text helpers of the control
  plane.

  SQLite is the store; the model keeps the rows in `ORDER BY id` order and
  follows the statements: `INSERT .. ON CONFLICT DO UPDATE` is an upsert that
  keeps the row's place, deleting a service deletes its routes.  Whether a
  statement runs at all (`SQLITE_DONE`) is decided by the environment.
-/

import Naitron.Bytes

namespace Naitron

/-- A row of `routes`, the service by name. -/
structure RouteRow where
  method : Bytes
  pattern : Bytes
  service : Bytes
deriving DecidableEq, Repr

/-- The registry tables. -/
structure NtcRegistry where
  services : List (Bytes × Bytes) := []
  routes : List RouteRow := []
  config : List (Bytes × Bytes) := []
deriving DecidableEq, Repr

/-- Upsert of a key-value row. -/
def upsertRow (rows : List (Bytes × Bytes)) (key value : Bytes) : List (Bytes × Bytes) :=
  if rows.any (·.1 == key) then rows.map fun r => if r.1 = key then (key, value) else r
  else rows ++ [(key, value)]

/-- `ntc_registry_add_service` when the statement runs. -/
def ntcRegistryAddService (r : NtcRegistry) (name bin : Bytes) : NtcRegistry :=
  { r with services := upsertRow r.services name bin }

/-- `ntc_registry_remove_service` when the statement runs: whether a row was
    deleted, and the tables afterwards. -/
def ntcRegistryRemoveService (r : NtcRegistry) (name : Bytes) : Bool × NtcRegistry :=
  (r.services.any (·.1 == name),
    { r with
      services := r.services.filter (·.1 != name)
      routes := r.routes.filter (·.service != name) })

/-- `ntc_registry_add_route` when the statement runs; `none` when the service
    has no row. -/
def ntcRegistryAddRoute (r : NtcRegistry) (method pattern service : Bytes) : Option NtcRegistry :=
  if r.services.any (·.1 == service) then
    let row := ⟨method, pattern, service⟩
    if r.routes.any fun x => x.method == method && x.pattern == pattern then
      some { r with
        routes := r.routes.map fun x =>
          if x.method = method ∧ x.pattern = pattern then row else x }
    else some { r with routes := r.routes ++ [row] }
  else none

/-- `ntc_registry_set_config` when the statement runs. -/
def ntcRegistrySetConfig (r : NtcRegistry) (key value : Bytes) : NtcRegistry :=
  { r with config := upsertRow r.config key value }

/-- `ntc_registry_get_config` into a buffer of `cap` bytes. -/
def ntcRegistryGetConfig (r : NtcRegistry) (key : Bytes) (cap : Nat) : Option Bytes :=
  (r.config.find? (·.1 == key)).map fun row => clip cap row.2

-- ============================================================================
-- C library text helpers
-- ============================================================================

/-- `strtok_r(s, " ", &save)`: the next token and what `save` points at. -/
def strtokR (s : Bytes) : Option (Bytes × Bytes) :=
  let s := s.dropWhile (· == chSpace)
  if s.isEmpty then none
  else some (s.takeWhile (· != chSpace), (s.dropWhile (· != chSpace)).drop 1)

/-- The digits of `atoi`. -/
def atoiDigits (s : Bytes) : Int :=
  (s.takeWhile fun c => 48 ≤ c && c ≤ 57).foldl (fun n c => n * 10 + (c.toNat - 48 : Nat)) 0

/-- `atoi` (on values that fit an `int`). -/
def atoi (s : Bytes) : Int :=
  match s.dropWhile isSpace with
  | 45 :: rest => -atoiDigits rest
  | 43 :: rest => atoiDigits rest
  | rest => atoiDigits rest

example : atoi (lit " 12x") = 12 := by decide

end Naitron
