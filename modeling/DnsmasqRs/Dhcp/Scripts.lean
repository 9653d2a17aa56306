import DnsmasqRs.Dhcp.Lease

/-!
# The lease-change script (`lease.rs`)

After each packet `run_lease_scripts` calls the script for what has happened to the leases: `del`
for a lease that was removed, `add` for a new one, `old` for one that has changed or lost its
hostname.  It goes by the queue of removed leases and the flags of the others, which it clears.
-/

namespace DnsmasqRs.Dhcp

open Utf8

/-- What the script is told. -/
inductive ScriptAction where
  | add
  | old
  | del
  deriving DecidableEq

/-- A call of the script: the action, and the lease and hostname that are passed. -/
structure ScriptEvent where
  action : ScriptAction
  lease : DhcpLease
  hostname : Option Str
  deriving DecidableEq

variable (leasefileRo scriptOnRenewal : Bool) (lease : DhcpLease)

/-- `build_script_event`.  DHCP does not set the domain name of a lease. -/
def buildScriptEvent (action : ScriptAction) (hostnameOverride : Option Str) : ScriptEvent where
  action
  lease
  hostname := if action = .del then none else hostnameOverride <|> lease.hostname

/-- The script hears of the lease. -/
def DhcpLease.reportable : Bool :=
  LeaseFlags.intersects lease.flags (LeaseFlags.new ||| LeaseFlags.changed)
    || (LeaseFlags.contains lease.flags LeaseFlags.auxChanged && leasefileRo)
    || (LeaseFlags.contains lease.flags LeaseFlags.expChanged && scriptOnRenewal)

/-- The lease without the hostname it has lost, as `old_hostname.take()` leaves it. -/
def DhcpLease.takeOldHostname : DhcpLease := { lease with oldHostname := none }

/-- The lease once the script has heard of it. -/
def DhcpLease.reported : DhcpLease :=
  let lease := lease.takeOldHostname
  if lease.reportable leasefileRo scriptOnRenewal then
    { lease with
      flags := lease.flags &&& ~~~(LeaseFlags.new ||| LeaseFlags.changed ||| LeaseFlags.auxChanged
        ||| LeaseFlags.expChanged) }
  else lease

/-- The call for a lost hostname. -/
def lostHostname : List ScriptEvent :=
  (lease.oldHostname.map fun name => buildScriptEvent lease.takeOldHostname .old (some name)).toList

/-- The calls for a lease that was removed. -/
def removedEvents : List ScriptEvent :=
  lostHostname lease ++ [buildScriptEvent lease.takeOldHostname .del none]

/-- The call for a lease that is new or has changed. -/
def changedEvents : List ScriptEvent :=
  if lease.reportable leasefileRo scriptOnRenewal then
    [buildScriptEvent lease.takeOldHostname
      (if LeaseFlags.contains lease.flags LeaseFlags.new then .add else .old) none]
  else []

/-- `LeaseDb::run_lease_scripts`, with the calls of the script that is set.  The leases are gone
through twice in the same order. -/
def LeaseDb.runLeaseScripts (db : LeaseDb) (order : LeaseDb.Entries) (command : Option Str)
    (leasefileRo scriptOnRenewal : Bool) : List ScriptEvent × LeaseDb :=
  let events := db.oldLeases.flatMap removedEvents ++ order.flatMap (fun e => lostHostname e.2)
    ++ order.flatMap fun e => changedEvents leasefileRo scriptOnRenewal e.2
  (if command.isSome then events else [],
    { db with
      store := db.store.mapValues (·.reported leasefileRo scriptOnRenewal)
      oldLeases := [] })

/-- A lease the script is to hear of again. -/
def DhcpLease.rerun : DhcpLease :=
  { lease with flags := lease.flags ||| LeaseFlags.changed }

/-- `LeaseDb::rerun_scripts`. -/
def LeaseDb.rerunScripts (db : LeaseDb) : LeaseDb :=
  { db with store := db.store.mapValues (·.rerun), fileDirty := true }

end DnsmasqRs.Dhcp
