import FencedLedger.Decimal.Signed

/-!
# Ledger and entry identifiers

Both are 64-bit signed words. Entries that a writer stores have non-negative
ids; the negative ones are reserved for entries that only a journal holds, and
`-1` stands for "none yet" where a last confirmed entry is asked for.
-/

namespace FencedLedger

/-- The number of a ledger. -/
structure LedgerId where
  /-- The word itself. -/
  value : Int64
  deriving DecidableEq, Repr, Inhabited

/-- The number of an entry within its ledger. -/
structure EntryId where
  /-- The word itself. -/
  value : Int64
  deriving DecidableEq, Repr, Inhabited

namespace LedgerId

/-- The ledger as messages name it. -/
def text (l : LedgerId) : String := "ledger:" ++ Decimal.showInt64 l.value

/-- The ledger as diagnostic dumps name it. -/
def dump (l : LedgerId) : String := "LedgerId(" ++ Decimal.showInt64 l.value ++ ")"

end LedgerId

namespace EntryId

/-- The entry as messages name it. -/
def text (e : EntryId) : String := "entry:" ++ Decimal.showInt64 e.value

/-- The entry as diagnostic dumps name it. -/
def dump (e : EntryId) : String := "EntryId(" ++ Decimal.showInt64 e.value ++ ")"

/-- No entry yet; asked for as an id, the last confirmed entry. -/
def unset : EntryId := ⟨-1⟩

/-- Whether a writer may store an entry under this id. -/
def isUser (e : EntryId) : Bool := 0 ≤ e.value

instance : LT EntryId := ⟨fun a b => a.value < b.value⟩

instance : LE EntryId := ⟨fun a b => a.value ≤ b.value⟩

instance (a b : EntryId) : Decidable (a < b) := inferInstanceAs (Decidable (a.value < b.value))

instance (a b : EntryId) : Decidable (a ≤ b) := inferInstanceAs (Decidable (a.value ≤ b.value))

end EntryId

end FencedLedger
