import FencedLedger.Bytes.BigEndian

/-!
# Master keys

A ledger is opened by whoever presents the key that it was created with. The
comparison visits every stored byte whatever the supplied bytes are, so its
duration tells nothing about where two keys differ. The bytes of a key are never
part of a text.
-/

namespace FencedLedger

/-- The secret that a ledger is created with. -/
structure MasterKey where
  /-- The secret bytes. -/
  bytes : Bytes
  deriving DecidableEq, Repr, Inhabited

namespace MasterKey

/-- The bits in which the stored bytes differ from the supplied ones, over all
stored positions. A missing byte counts as zero. -/
def difference : (stored supplied : Bytes) → UInt8
  | [], _ => 0
  | b :: stored, supplied =>
      (b ^^^ supplied.headD 0) ||| difference stored supplied.tail

/-- Whether the supplied bytes are the key. -/
def accepts (key : MasterKey) (supplied : Bytes) : Bool :=
  decide (key.bytes.length = supplied.length) && difference key.bytes supplied == 0

/-- The key as diagnostic dumps show it: its length only. -/
def dump (key : MasterKey) : String := s!"MasterKey([REDACTED; {key.bytes.length}])"

end MasterKey

end FencedLedger
