/-
# The caps of the sim class

`classes.js`: what the held sims have booked, how much more a sim may book, and which queued
tickets the class policy takes out of every selection.
-/

import LaneBroker.Scheduler.Tickets

namespace LaneBroker
namespace Scheduler

open LaneBroker.Basis

/-- What `resolveClasses` returns; an invalid block is `off`. -/
structure ClassPolicy where
  mode : Mode
  valid : Bool
  caps : ClassesBlock := {}
  deriving DecidableEq, Repr

/-- `resolveClasses`. -/
def resolveClasses (cfg : Config) : ClassPolicy :=
  if cfg.classesInvalid then { mode := .off, valid := false }
  else
    match cfg.classes with
    | none => { mode := .off, valid := true }
    | some caps => { mode := caps.mode, valid := true, caps }

/-- What is booked, or granted: cores, bytes and how many leases. -/
structure Booking where
  cores : ℚ := 0
  memoryBytes : ℚ := 0
  count : ℕ := 0
  deriving DecidableEq, Repr

/-- The granted claim of one lease. -/
def leaseBooking (lease : Lease) (cfg : Config) : Booking :=
  { cores := (leaseResources lease cfg).cpuCores
    memoryBytes := (leaseResources lease cfg).memoryBytes
    count := 1 }

def Booking.add (a b : Booking) : Booking :=
  { cores := double.add a.cores b.cores
    memoryBytes := double.add a.memoryBytes b.memoryBytes
    count := a.count + b.count }

/-- **`bookedSims`.** -/
def bookedSims (held : List Lease) (cfg : Config) : Booking :=
  held.foldl (fun booked lease =>
    if lease.laneClass = .sim then booked.add (leaseBooking lease cfg) else booked) {}

/-- `simCoreCeiling`. -/
def simCoreCeiling (classes : ClassPolicy) (booked : Booking) (host : Host) (cfg : Config) : ℚ :=
  double.sub
    (min classes.caps.capCores (double.sub (cpuBudgetCores host cfg) classes.caps.reserveCores))
    booked.cores

inductive CapReason
  | maxTickets
  | capCores
  | capMemory
  | testReserve
  | configInvalid
  | enforcementUnavailable
  deriving DecidableEq, Repr

/-- `simCapReason`; the grant is a pair of cores and bytes. -/
def simCapReason (classes : ClassPolicy) (booked : Booking) (grant : ℚ × ℚ) (host : Host)
    (cfg : Config) : Option CapReason :=
  if classes.caps.maxTickets ≤ booked.count then some .maxTickets
  else if classes.caps.capCores < double.add booked.cores grant.1 then some .capCores
  else if classes.caps.capMemoryBytes < double.add booked.memoryBytes grant.2 then some .capMemory
  else if simCoreCeiling classes booked host cfg < grant.1 then some .testReserve
  else none

/-- `smallestSimGrant`. -/
def smallestSimGrant (ticket : Ticket) (cfg : Config) (host : Host) : ℚ × ℚ :=
  if ticket.exclusive then exclusiveBudget host cfg
  else
    let declared := resolveTicketResources ticket.weight ticket.resources.cpuCores none
      ticket.resources.memoryBytes cfg.defaultMemoryBytesPerWeight
    (match ticket.resources.minCpuCores with
      | some least => min declared.cpuCores ⌈least⌉
      | none => declared.cpuCores,
      declared.memoryBytes)

/-- `enforcementAvailable`. -/
def enforcementAvailable (classes : ClassPolicy) : Bool := classes.mode = .active && classes.valid

/-- Why the class policy forbids a queued ticket to start. -/
def capDenial (classes : ClassPolicy) (booked : Option Booking) (host : Host) (cfg : Config)
    (t : Ticket) : Option CapReason :=
  if t.enforcementRequired && !enforcementAvailable classes then some .enforcementUnavailable
  else if t.laneClass ≠ .sim then none
  else if !classes.valid then some .configInvalid
  else booked.bind fun booked =>
    simCapReason classes booked (smallestSimGrant t cfg host) host cfg

/-- `capDeniedSims`: the entries in the order they are set. -/
def capDeniedSims (rawQueue : List (Option Ticket)) (classes : ClassPolicy) (held : List Lease)
    (host : Host) (cfg : Config) : List (TicketId × CapReason) :=
  let booked := if classes.valid && classes.mode ≠ .off then some (bookedSims held cfg) else none
  rawQueue.filterMap fun t => t.bind fun t =>
    (capDenial classes booked host cfg t).map fun reason => (t.id, reason)

/-- `ALWAYS_ENFORCED_REASONS`. -/
def CapReason.alwaysEnforced : CapReason → Bool
  | .configInvalid | .enforcementUnavailable => true
  | _ => false

/-- `capEnforced` of `classQueuePolicy`. -/
def capEnforcedOf (rawQueue : List (Option Ticket)) (classes : ClassPolicy) (held : List Lease)
    (host : Host) (cfg : Config) : List (TicketId × CapReason) :=
  (capDeniedSims rawQueue classes held host cfg).filter fun entry =>
    classes.mode = .active || entry.2.alwaysEnforced

/-- `simsAfterTests` of `classQueuePolicy`. -/
def simsAfterTestsOf (classes : ClassPolicy) : Bool := classes.valid && classes.mode = .active

/-- **`capSimClaim`.** -/
def capSimClaim (ticket : Ticket) (classes : ClassPolicy) (booked : Booking) (host : Host)
    (cfg : Config) : Ticket :=
  match ticket.resources.minCpuCores with
  | none => ticket
  | some least =>
    if ticket.laneClass ≠ .sim ∨ !classes.valid ∨ classes.mode ≠ .active then ticket
    else
      let ceiling := ⌊simCoreCeiling classes booked host cfg⌋
      if ticket.resources.cpuCores.all fun cpu => cpu ≤ (ceiling : ℚ) then ticket
      else if ceiling < ⌈least⌉ then ticket
      else ticket.capped least ceiling

end Scheduler
end LaneBroker
