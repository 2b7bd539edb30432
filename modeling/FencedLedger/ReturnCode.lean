/-!
# Return codes of journal completions
-/

namespace FencedLedger

/-- What a journal reports about an append. -/
structure ReturnCode where
  /-- The code itself. -/
  value : Int32
  deriving DecidableEq, Repr

namespace ReturnCode

/-- The append is durable. -/
def ok : ReturnCode := ⟨0⟩

/-- The handle that the append belonged to is gone. -/
def handleNotAvailable : ReturnCode := ⟨-8⟩

/-- The append could not be written. -/
def writeFailure : ReturnCode := ⟨-12⟩

/-- Whether the append is durable. -/
def isOk (rc : ReturnCode) : Bool := rc = ok

/-- The code as messages show it. -/
def text (rc : ReturnCode) : String :=
  if rc = ok then "OK"
  else if rc = handleNotAvailable then s!"BookieHandleNotAvailable({rc.value.toInt})"
  else if rc = writeFailure then s!"WriteException({rc.value.toInt})"
  else s!"rc({rc.value.toInt})"

/-- The code as diagnostic dumps show it. -/
def dump (rc : ReturnCode) : String := s!"ReturnCode({rc.value.toInt})"

end ReturnCode

end FencedLedger
