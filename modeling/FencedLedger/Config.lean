import FencedLedger.Duration.Written
import FencedLedger.Json.Reader

/-!
# Configuration

How long and how many fenced and deleted ledgers a cache remembers, and whether
a journal may acknowledge a fence marker before it is on disk. A configuration
that is built is valid; one that is read from JSON text need not be.
-/

namespace FencedLedger

/-- The settings of handles and of their cache. -/
structure Config where
  /-- How long a ledger that was fenced and deleted is remembered. -/
  ttl : Duration
  /-- How many such ledgers are remembered. -/
  capacity : Nat
  /-- Whether a fence marker may be acknowledged before it is on disk. -/
  ackBeforeSync : Bool
  deriving DecidableEq

namespace Config

/-- Five minutes. -/
def defaultTtl : Duration := ⟨300, 0, by decide, Duration.zero.nanos_lt⟩

/-- One second, the least time that a valid configuration allows. -/
def leastTtl : Duration := ⟨1, 0, by decide, Duration.zero.nanos_lt⟩

/-- The settings that hold where none are given. -/
def standard : Config := ⟨defaultTtl, 10000, false⟩

/-- The least settings, for trials. -/
def trial : Config := ⟨leastTtl, 16, false⟩

/-- Why a configuration is not valid. -/
inductive Invalid where
  /-- Ledgers would be remembered for less than a second. -/
  | ttlTooShort (ttl : Duration)
  /-- No ledger would be remembered. -/
  | capacityZero
  deriving DecidableEq

/-- The words for a configuration that is not valid. -/
def Invalid.message : Invalid → String
  | .ttlTooShort ttl =>
      "invalid config: recently_deleted_ttl must be >= " ++ leastTtl.dump ++ ", got " ++ ttl.dump
  | .capacityZero => "invalid config: recently_deleted_capacity must be >= 1, got 0"

/-- The first fault of a configuration. -/
def invalid? (c : Config) : Option Invalid :=
  if c.ttl.seconds = 0 then some (.ttlTooShort c.ttl)
  else if c.capacity = 0 then some .capacityZero
  else none

/-- The configuration, if it is valid. -/
def validated (c : Config) : Except Invalid Config :=
  match c.invalid? with
  | none => .ok c
  | some fault => .error fault

/-! ### JSON text -/

/-- Write a configuration. The text of a duration has no character to escape. -/
def toJson (c : Config) : String :=
  "\x7b\"recently_deleted_ttl\":\"" ++ c.ttl.written ++
    "\",\"recently_deleted_capacity\":" ++ toString c.capacity ++
    ",\"fence_ack_before_sync\":" ++ (if c.ackBeforeSync then "true" else "false") ++ "\x7d"

/-- The fields read so far. -/
structure Fields where
  ttl : Option Duration
  capacity : Option Nat
  ackBeforeSync : Option Bool

/-- No field. -/
def Fields.none : Fields := ⟨Option.none, Option.none, Option.none⟩

/-- The configuration with the given fields, and the standard settings for the
others. -/
def ofFields (fields : Fields) : Config :=
  ⟨fields.ttl.getD standard.ttl, fields.capacity.getD standard.capacity,
    fields.ackBeforeSync.getD standard.ackBeforeSync⟩

/-- Read the written form of a duration. -/
def readTtl (fields : Fields) (text : List Char) :
    Except Json.ReadError (Fields × List Char) := do
  let (written, rest) ← Json.readString text
  match Duration.read written.toList with
  | .ok ttl => .ok ({ fields with ttl := some ttl }, rest)
  | .error e => .error (.unreadable e.message)

/-- Read a number of ledgers. -/
def readCapacity (fields : Fields) (text : List Char) :
    Except Json.ReadError (Fields × List Char) := do
  let (capacity, rest) ← Json.readCount text
  .ok ({ fields with capacity := some capacity }, rest)

/-- Read whether early acknowledgement is allowed. -/
def readAck (fields : Fields) (text : List Char) :
    Except Json.ReadError (Fields × List Char) := do
  let (ack, rest) ← Json.readBool text
  .ok ({ fields with ackBeforeSync := some ack }, rest)

/-- Read the member of the given name from behind the name. Members of other
names are passed over. -/
def readMember (fields : Fields) (name : String) (text : List Char) :
    Except Json.ReadError (Fields × List Char) :=
  let once (given : Bool)
      (reader : Fields → List Char → Except Json.ReadError (Fields × List Char)) :
      Except Json.ReadError (Fields × List Char) :=
    if given then .error (.duplicateField name)
    else do
      let rest ← Json.behindColon text
      reader fields rest
  if name = "recently_deleted_ttl" then once fields.ttl.isSome readTtl
  else if name = "recently_deleted_capacity" then once fields.capacity.isSome readCapacity
  else if name = "fence_ack_before_sync" then once fields.ackBeforeSync.isSome readAck
  else do
    let rest ← Json.behindColon text
    let rest ← Json.skip rest
    .ok (fields, rest)

/-- Read the fields of a configuration: a map by name, or a sequence in order. -/
def readFields (text : List Char) : Except Json.ReadError (Fields × List Char) :=
  match Json.dropBlanks text with
  | '\x7b' :: rest => Json.readMembers readMember (rest.length + 1) true .none rest
  | '[' :: rest => Json.readElements [readTtl, readCapacity, readAck] true .none rest
  | text => .error (Json.wrongType "struct HandleConfig" text)

/-- Read a configuration from JSON text. -/
def ofJson (text : List Char) : Except Json.ReadError Config :=
  (Json.readDocument readFields text).map ofFields

end Config

end FencedLedger
