/-
# The guest clock across a migration

`vmm-migrate/src/state/time.rs`: the source's clock is put on the
destination's time base.

# Arithmetic

A value of a machine type is the Lean type of that width; `i128` and `u128`
intermediates are integers with a range test. Where the source checks the
result of an operation, an overflow is the error it returns. Where it uses a
plain operator, an overflow is a panic, and the whole function has no result
(`none`).
-/
import Rshyve.Migrate.State

namespace Rshyve.Migrate

open Bytes (le ofLe)

/-- `vdi_time_info_v1`. -/
structure TimeInfo where
  guestFreq : UInt64
  guestTsc : UInt64
  bootHrtime : Int64
  hrtime : Int64
  hresSec : UInt64
  hresNs : UInt64
  deriving DecidableEq, Repr

/-- The largest wall-clock gap that a switchover can show. -/
def maxMigrateDeltaNs : Int := 3600 * 1000000000

-- ==== arithmetic

/-- A computation that can panic and can return an error. -/
abbrev Checked (α : Type) : Type := ExceptT MigrateError Option α

/-- `i64::try_from`; also a checked operation of `i64`. -/
def i64TryFrom (x : Int) : Option Int64 :=
  if -2 ^ 63 ≤ x ∧ x < 2 ^ 63 then some (.ofInt x) else none

/-- `u64::try_from`. -/
def u64TryFrom (x : Int) : Option UInt64 :=
  if 0 ≤ x ∧ x < 2 ^ 64 then some (.ofNat x.toNat) else none

/-- An operation of `i128` with result `x`. -/
def i128 (x : Int) : Option Int :=
  if -2 ^ 127 ≤ x ∧ x < 2 ^ 127 then some x else none

/-- An operation of `u128` with result `x`. -/
def u128 (x : Nat) : Option Nat := if x < 2 ^ 128 then some x else none

/-- The operation as a plain operator: an overflow panics. -/
def plain {α : Type} (x : Option α) : Checked α := ExceptT.mk (x.map .ok)

def badTime (what : String) : MigrateError := .state ("VMM_TIME: " ++ what)

/-- The operation as a checked one: an overflow is an error. -/
def orBad {α : Type} (x : Option α) (what : String) : Checked α :=
  match x with
  | some a => pure a
  | none => throw (badTime what)

-- ==== adjust_time

/-- `src.vt_hrtime.checked_sub(src.vt_boot_hrtime)`. -/
def guestUptime (src : TimeInfo) : Checked Int64 := do
  let uptime ← orBad (i64TryFrom (src.hrtime.toInt - src.bootHrtime.toInt))
    "hrtime - boot_hrtime overflows"
  if uptime.toInt < 0 then throw (badTime "boot_hrtime is after hrtime")
  pure uptime

def wallNs (sec ns : UInt64) : Option Int := do
  let secNs ← i128 (sec.toNat * 1000000000)
  i128 (secNs + ns.toNat)

/-- `migrate_delta_ns`: a source clock ahead of the destination's counts as
no time at all, and a gap past the bound is refused. -/
def migrateDelta (src dst : TimeInfo) : Checked Int := do
  let srcWc ← orBad (wallNs src.hresSec src.hresNs) "source wall clock overflows"
  let dstWc ← orBad (wallNs dst.hresSec dst.hresNs) "destination wall clock overflows"
  let gap ← plain (i128 (dstWc - srcWc))
  let delta := max gap 0
  if delta > maxMigrateDeltaNs then
    throw (badTime ("the two hosts' clocks differ by " ++ toString (delta.tdiv 1000000000) ++ " s"))
  pure delta

def newBootHrtime (dst : TimeInfo) (uptime : Int64) (delta : Int) : Checked Int64 := do
  let guestTime ← plain (i128 (uptime.toInt + delta))
  let boot ← plain (i128 (dst.hrtime.toInt - guestTime))
  orBad (i64TryFrom boot) "adjusted boot_hrtime does not fit"

/-- The frequency the guest has from here on. -/
def newGuestFreq (src dst : TimeInfo) : UInt64 :=
  if dst.guestFreq ≠ src.guestFreq then dst.guestFreq else src.guestFreq

def tscDelta (src dst : TimeInfo) (delta : Int) : Checked UInt64 :=
  if newGuestFreq src dst > 0 then do
    let ticks ← plain (i128 (delta * (newGuestFreq src dst).toNat))
    orBad (u64TryFrom (ticks.tdiv 1000000000)) "TSC delta does not fit"
  else pure 0

def scaledGuestTsc (src dst : TimeInfo) : Checked UInt64 :=
  if dst.guestFreq ≠ src.guestFreq ∧ src.guestFreq > 0 then do
    let scaled ← plain (u128 (src.guestTsc.toNat * dst.guestFreq.toNat))
    orBad (u64TryFrom (scaled / src.guestFreq.toNat : Nat)) "scaled guest TSC does not fit"
  else pure src.guestTsc

def adjustTime (src dst : TimeInfo) : Checked TimeInfo := do
  let uptime ← guestUptime src
  let delta ← migrateDelta src dst
  let boot ← newBootHrtime dst uptime delta
  let ticks ← tscDelta src dst delta
  let scaled ← scaledGuestTsc src dst
  pure
    { guestFreq := newGuestFreq src dst
      -- the guest reads the TSC as a wrapping counter
      guestTsc := scaled + ticks
      bootHrtime := boot
      hrtime := dst.hrtime
      hresSec := dst.hresSec
      hresNs := dst.hresNs }

-- ==== import

def vdcVmmTime : Nat := 13
/-- `size_of::<vdi_time_info_v1>()`. -/
def timeInfoLen : Nat := 48

/-- The bytes of the structure, as the processor lays them out. -/
def TimeInfo.bytes (t : TimeInfo) : List UInt8 :=
  le 8 t.guestFreq.toNat ++ le 8 t.guestTsc.toNat
    ++ le 8 t.bootHrtime.toUInt64.toNat ++ le 8 t.hrtime.toUInt64.toNat
    ++ le 8 t.hresSec.toNat ++ le 8 t.hresNs.toNat

/-- `read_unaligned` of the structure. -/
def TimeInfo.ofBytes (bs : List UInt8) : TimeInfo :=
  let word (i : Nat) : UInt64 := .ofNat (ofLe ((bs.drop (8 * i)).take 8))
  { guestFreq := word 0
    guestTsc := word 1
    bootHrtime := (word 2).toInt64
    hrtime := (word 3).toInt64
    hresSec := word 4
    hresNs := word 5 }

/-- `import_time_data` up to its write, whose bytes it returns. `versions`
and `read` are what the two reads from the local kernel come back with. -/
def importTimeData (versions : Except String (List VersionEntry))
    (read : Except String TimeInfo) (time : TimeData) :
    Checked (List UInt8) := do
  let layouts ← ExceptT.mk (some (versions.mapError fun e =>
    .state ("read local class versions: " ++ e)))
  ExceptT.mk (some (checkClassBlob layouts "VMM_TIME" vdcVmmTime 1 time.vmmTime.length))
  if time.vmmTime.length ≠ timeInfoLen then
    throw (.state ("VMM_TIME: payload has " ++ toString time.vmmTime.length
      ++ " bytes, this build reads " ++ toString timeInfoLen))
  let dst ← ExceptT.mk (some (read.mapError fun e =>
    .vmmData ("read dst VMM_TIME: " ++ e)))
  let adjusted ← adjustTime (.ofBytes time.vmmTime) dst
  pure adjusted.bytes

end Rshyve.Migrate
