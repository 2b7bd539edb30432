import FencedLedger.Bytes.BigEndian
import FencedLedger.Ident

/-!
# The layout of an entry

An entry opens with the words of its ledger and its own id. A third word, when
there is room for one, tells the last entry that its writer knew to be
confirmed; the payload follows it. The fence marker of a ledger is an entry of
the first two words only, under an id that no writer can use.
-/

namespace FencedLedger

/-- An entry of `length` bytes that needed `required`. -/
structure TooShort where
  /-- The bytes at hand. -/
  length : Nat
  /-- The bytes needed. -/
  required : Nat
  deriving DecidableEq, Repr

/-- The words for an entry that is too short. -/
def TooShort.message (s : TooShort) : String :=
  s!"Entry of {s.length} bytes is too short, need at least {s.required}"

namespace Entry

/-- The two ids that open an entry. -/
structure Header where
  /-- The ledger that the entry belongs to. -/
  ledger : LedgerId
  /-- The id of the entry in its ledger. -/
  entry : EntryId
  deriving DecidableEq, Repr

/-- Whether the header belongs to an entry that only a journal may hold. -/
def Header.isMeta (h : Header) : Bool := !h.entry.isUser

/-- The word at byte `offset`. -/
def wordAt (offset : Nat) (entry : Bytes) : Int64 :=
  BigEndian.decodeWord ((entry.drop offset).take 8)

/-- The ledger id in the first word. -/
def readLedger (entry : Bytes) : Except TooShort LedgerId :=
  if entry.length < 8 then .error ⟨entry.length, 8⟩ else .ok ⟨wordAt 0 entry⟩

/-- The ids in the first two words. -/
def readHeader (entry : Bytes) : Except TooShort Header :=
  if entry.length < 16 then .error ⟨entry.length, 16⟩
  else .ok ⟨⟨wordAt 0 entry⟩, ⟨wordAt 8 entry⟩⟩

/-- The last confirmed entry that an entry tells of, if it has a third word. -/
def confirmed? (entry : Bytes) : Option EntryId :=
  if entry.length < 24 then none else some ⟨wordAt 16 entry⟩

/-- The entry with the given words and payload. -/
def encode (ledger : LedgerId) (entry confirmed : EntryId) (payload : Bytes) : Bytes :=
  BigEndian.encodeWord ledger.value ++ BigEndian.encodeWord entry.value ++
    BigEndian.encodeWord confirmed.value ++ payload

/-- The id of every fence marker. -/
def fenceMarkerId : EntryId := ⟨-0x2000⟩

/-- The entry that marks a ledger as fenced in a journal. -/
def fenceMarker (ledger : LedgerId) : Bytes :=
  BigEndian.encodeWord ledger.value ++ BigEndian.encodeWord fenceMarkerId.value

end Entry

end FencedLedger
