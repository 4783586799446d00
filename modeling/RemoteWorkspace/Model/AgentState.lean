import Mathlib.Data.Int.Notation
import Mathlib.Tactic.Common

/-!
# The timestamp of the agent's state file

`iso8601` and `civil_from_days` (agent/src/state.rs:60-99), which render the instant at which an
agent published its address. The `i64`s are integers: those that `iso8601` computes all fit, by
`signed_fits`. A subtraction of `u64`s that would go below zero has no result.
-/

set_option autoImplicit false

namespace RemoteWorkspace.Model.AgentState

abbrev Text := List Char

/-! ### Machine integers -/

/-- `i64::MAX` -/
def i64Max : ℕ := (1 <<< 63) - 1

/-- `as u64`, of an `i64`. -/
def asU64 (n : ℤ) : ℕ := (n % (1 <<< 64 : ℕ)).toNat

/-- `as i64`, of a `u64`. -/
def asI64 (n : ℕ) : ℤ := Int.bmod n (1 <<< 64)

/-- `as u32`, of a `u64`. -/
def asU32 (n : ℕ) : ℕ := n % 1 <<< 32

/-- `-`, of `u64`s. -/
def subU64 (a b : ℕ) : Option ℕ := if b ≤ a then some (a - b) else none

/-! ### Days -/

/-- The 400 years that a day is in, counted in days from the 1st of March of the year 0. -/
def era (shifted : ℤ) : ℤ :=
  (if 0 ≤ shifted then shifted else shifted - 146096).tdiv 146097

/-- `civil_from_days`: convert a count of days since the Unix epoch into a year, a month and a
day. -/
def civilFromDays (days : ℤ) : Option (ℤ × ℕ × ℕ) := do
  let shifted := days + 719468
  let era := era shifted
  let dayOfEra := asU64 (shifted - era * 146097)
  let yearOfEra :=
    (← subU64 ((← subU64 dayOfEra (dayOfEra / 1460)) + dayOfEra / 36524) (dayOfEra / 146096)) / 365
  let year := asI64 yearOfEra + era * 400
  let dayOfYear ← subU64 dayOfEra (← subU64 (365 * yearOfEra + yearOfEra / 4) (yearOfEra / 100))
  let monthPrime := (5 * dayOfYear + 2) / 153
  let day := asU32 ((← subU64 dayOfYear ((153 * monthPrime + 2) / 5)) + 1)
  let month := asU32 (← if monthPrime < 10 then some (monthPrime + 3) else subU64 monthPrime 9)
  some (if month ≤ 2 then year + 1 else year, month, day)

/-! ### Instants -/

/-- `SystemTime`: the whole seconds from the Unix epoch, which are an `i64`. The nanoseconds after
them are not rendered. -/
structure SystemTime where
  seconds : ℤ
  fits : seconds ≤ i64Max

/-- `duration_since(UNIX_EPOCH)`, in whole seconds; an instant before the epoch has none. -/
def SystemTime.sinceEpoch (time : SystemTime) : Option ℕ :=
  if 0 ≤ time.seconds then some time.seconds.toNat else none

/-- A number with zeros before it up to a width, of which the sign takes one. -/
def padded (width : ℕ) (n : ℤ) : Text :=
  if n < 0 then '-' :: (Nat.toDigits 10 n.natAbs).leftpad (width - 1) '0'
  else (Nat.toDigits 10 n.natAbs).leftpad width '0'

/-- `iso8601`, of the seconds since the epoch. -/
def timestamp (seconds : ℤ) : Option Text := do
  let days := seconds / 86400
  let remainder := seconds % 86400
  let (year, month, day) ← civilFromDays days
  some (padded 4 year ++ '-' :: padded 2 month ++ '-' :: padded 2 day ++ 'T' ::
    padded 2 (remainder / 3600) ++ ':' :: padded 2 (remainder % 3600 / 60) ++ ':' ::
    padded 2 (remainder % 60) ++ ['Z'])

/-- `iso8601`: render an instant as an ISO-8601 UTC timestamp. -/
def iso8601 (time : SystemTime) : Option Text :=
  timestamp ((time.sinceEpoch.map asI64).getD 0)

end RemoteWorkspace.Model.AgentState
