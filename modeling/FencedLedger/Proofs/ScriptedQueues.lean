import FencedLedger.Proofs.Effects

/-!
# The queue of a scripted journal

A scripted journal is told how to report and which submissions to refuse, is handed entries,
and runs or lets go of the callbacks that it holds. The log of all that decides everything
about it: what it took, what it still holds, which failures are left, and what it makes of
the next entry. Nothing is lost, nothing happens twice, and callbacks leave in the order in
which they came, however it is told to report in the meantime.
-/

namespace FencedLedger

/-- Something that a scripted journal is told or handed, with what becomes of it. -/
inductive JournalAct where
  /-- It is told how to report from now on. -/
  | switched (mode : AckMode)
  /-- It is told to refuse a submission. -/
  | queued (cause : JournalError)
  /-- It is handed an entry by a thread, interrupted or not. -/
  | submitted (interrupted : Bool) (append : Journaled) (callback : Callback) (verdict : Verdict)
  /-- It runs the callback held longest. -/
  | completed (held : Held) (code : ReturnCode)
  /-- It lets go of the callback held longest. -/
  | dropped (held : Held)

namespace JournalAct

/-- The mode after an act. -/
def mode (mode : AckMode) : JournalAct → AckMode
  | switched mode => mode
  | _ => mode

/-- The entry that is taken. -/
def accepted? : JournalAct → Option Journaled
  | submitted _ append _ (.completed _) | submitted _ append _ .held => some append
  | _ => none

/-- The callback that is held back from now on. -/
def heldBack? : JournalAct → Option Held
  | submitted _ append callback .held => some ⟨append.entry, callback⟩
  | _ => none

/-- The callback that was held back and is run. -/
def completed? : JournalAct → Option Held
  | completed held _ => some held
  | _ => none

/-- The callback that is held back no more, whether it is run or not. -/
def released? : JournalAct → Option Held
  | completed held _ | dropped held => some held
  | _ => none

/-- The failure that is queued. -/
def queued? : JournalAct → Option JournalError
  | queued cause => some cause
  | _ => none

/-- The queued failure that a submission meets. An interrupted thread meets none. -/
def consumed? : JournalAct → Option JournalError
  | submitted false _ _ (.refused cause) => some cause
  | _ => none

/-- The callback that is run, and what it is told. -/
def called? : JournalAct → Option (Callback × Completion)
  | submitted _ _ callback (.completed report) => some (callback, report)
  | completed held code => some (held.callback, .of held.entry code)
  | _ => none

/-- Whether a callback is let go. -/
def drops : JournalAct → Bool
  | dropped _ => true
  | _ => false

end JournalAct

/-- What an act may be after the acts before it, for a journal made with `initial`. -/
inductive Lawful (initial : AckMode) (before : List JournalAct) : JournalAct → Prop where
  | switched (mode : AckMode) : Lawful initial before (.switched mode)
  | queued (cause : JournalError) : Lawful initial before (.queued cause)
  /-- An interrupted thread is refused for that reason, whatever is queued. -/
  | interrupted (append : Journaled) (callback : Callback) :
      Lawful initial before (.submitted true append callback (.refused .interrupted))
  /-- A queued failure is met by the first submission after those for the failures before. -/
  | refused (append : Journaled) (callback : Callback) {cause : JournalError}
      (rest : List JournalError)
      (next : before.filterMap JournalAct.queued? =
        before.filterMap JournalAct.consumed? ++ cause :: rest) :
      Lawful initial before (.submitted false append callback (.refused cause))
  /-- The report is on the entry itself and has the code in force. -/
  | reported (append : Journaled) (callback : Callback) {code : ReturnCode}
      (none_left : before.filterMap JournalAct.queued? = before.filterMap JournalAct.consumed?)
      (mode : before.foldl JournalAct.mode initial = .immediate code) :
      Lawful initial before
        (.submitted false append callback (.completed (.of append.entry code)))
  | held (append : Journaled) (callback : Callback)
      (none_left : before.filterMap JournalAct.queued? = before.filterMap JournalAct.consumed?)
      (mode : before.foldl JournalAct.mode initial = .hold) :
      Lawful initial before (.submitted false append callback .held)
  /-- The callback that is run is the oldest of those that are still held. -/
  | completed {held : Held} (code : ReturnCode) (rest : List Held)
      (next : before.filterMap JournalAct.heldBack? =
        before.filterMap JournalAct.released? ++ held :: rest) :
      Lawful initial before (.completed held code)
  | dropped {held : Held} (rest : List Held)
      (next : before.filterMap JournalAct.heldBack? =
        before.filterMap JournalAct.released? ++ held :: rest) :
      Lawful initial before (.dropped held)

namespace ScriptedJournal

variable {initial : AckMode} {j j' j'' : ScriptedJournal} {act : JournalAct}
  {log acts acts' : List JournalAct}

/-- What an act does to a journal. -/
inductive Turn : ScriptedJournal → JournalAct → ScriptedJournal → Prop where
  | switched (j : ScriptedJournal) (mode : AckMode) : Turn j (.switched mode) { j with mode }
  | queued (j : ScriptedJournal) (cause : JournalError) :
      Turn j (.queued cause) { j with failures := j.failures ++ [cause] }
  | interrupted (j : ScriptedJournal) (append : Journaled) (callback : Callback) :
      Turn j (.submitted true append callback (.refused .interrupted)) j
  | refused {j : ScriptedJournal} (append : Journaled) (callback : Callback)
      {cause : JournalError} {rest : List JournalError} (next : j.failures = cause :: rest) :
      Turn j (.submitted false append callback (.refused cause)) { j with failures := rest }
  | reported {j : ScriptedJournal} (append : Journaled) (callback : Callback)
      {code : ReturnCode} (none_left : j.failures = []) (mode : j.mode = .immediate code) :
      Turn j (.submitted false append callback (.completed (.of append.entry code)))
        { j with submissions := j.submissions ++ [append] }
  | held {j : ScriptedJournal} (append : Journaled) (callback : Callback)
      (none_left : j.failures = []) (mode : j.mode = .hold) :
      Turn j (.submitted false append callback .held)
        { j with
          submissions := j.submissions ++ [append]
          held := j.held ++ [⟨append.entry, callback⟩] }
  | completed {j : ScriptedJournal} {held : Held} {rest : List Held} (code : ReturnCode)
      (next : j.held = held :: rest) : Turn j (.completed held code) { j with held := rest }
  | dropped {j : ScriptedJournal} {held : Held} {rest : List Held}
      (next : j.held = held :: rest) : Turn j (.dropped held) { j with held := rest }

section Turns

variable (h : Turn j act j')

include h

theorem Turn.mode : j'.mode = act.mode j.mode := by
  cases h <;> rfl

theorem Turn.submissions : j'.submissions = j.submissions ++ act.accepted?.toList := by
  cases h <;> simp [JournalAct.accepted?]

/-- What is held and what comes to it is what leaves and what is held then. -/
theorem Turn.held_balance :
    j.held ++ act.heldBack?.toList = act.released?.toList ++ j'.held := by
  cases h <;> simp [JournalAct.heldBack?, JournalAct.released?, *]

theorem Turn.failures_balance :
    j.failures ++ act.queued?.toList = act.consumed?.toList ++ j'.failures := by
  cases h <;> simp [JournalAct.queued?, JournalAct.consumed?, *]

end Turns

/-- What acts do to a journal, one after the other. -/
def Course (j : ScriptedJournal) : List JournalAct → ScriptedJournal → Prop
  | [], j' => j' = j
  | act :: acts, j' => ∃ j₁, Turn j act j₁ ∧ Course j₁ acts j'

/-- Turns that follow each other are one course. -/
theorem Course.append (h : Course j acts j') (h' : Course j' acts' j'') :
    Course j (acts ++ acts') j'' := by
  induction acts generalizing j with
  | nil =>
      cases h
      exact h'
  | cons act acts ih =>
      obtain ⟨j₁, hturn, hrest⟩ := h
      exact ⟨j₁, hturn, ih hrest⟩

theorem Turn.course (h : Turn j act j') : Course j [act] j' := ⟨j', h, rfl⟩

/-- A journal made with `initial` is as its log says. -/
structure Recorded (initial : AckMode) (log : List JournalAct) (j : ScriptedJournal) :
    Prop where
  mode : j.mode = log.foldl JournalAct.mode initial
  /-- The entries that were taken are kept in order of submission. -/
  submissions : j.submissions = log.filterMap JournalAct.accepted?
  /-- The callbacks that were held back are those that left, in this order, and those that
  are still held. -/
  held : log.filterMap JournalAct.heldBack? = log.filterMap JournalAct.released? ++ j.held
  /-- The failures that were queued are those that were met, in this order, and those that
  are left. -/
  failures : log.filterMap JournalAct.queued? = log.filterMap JournalAct.consumed? ++ j.failures
  lawful : ∀ before act after, log = before ++ act :: after → Lawful initial before act

/-- What comes next is lawful. -/
theorem Recorded.lawful_next (h : Recorded initial log j) (hturn : Turn j act j') :
    Lawful initial log act := by
  -- no failure is left when each one that was queued was met
  have hnone : j.failures = [] →
      log.filterMap JournalAct.queued? = log.filterMap JournalAct.consumed? := fun hempty => by
    rw [h.failures, hempty, List.append_nil]
  cases hturn with
  | switched mode => exact .switched mode
  | queued cause => exact .queued cause
  | interrupted append callback => exact .interrupted append callback
  | refused append callback next => exact .refused append callback _ (next ▸ h.failures)
  | reported append callback none_left mode =>
      exact .reported append callback (hnone none_left) (h.mode.symm.trans mode)
  | held append callback none_left mode =>
      exact .held append callback (hnone none_left) (h.mode.symm.trans mode)
  | completed code next => exact .completed code _ (next ▸ h.held)
  | dropped next => exact .dropped _ (next ▸ h.held)

/-- The log goes on with what comes next. -/
theorem Recorded.turn (h : Recorded initial log j) (hturn : Turn j act j') :
    Recorded initial (log ++ [act]) j' := by
  have hlawful : ∀ before next after, log ++ [act] = before ++ next :: after →
      Lawful initial before next := by
    intro before next after heq
    rcases Host.concat_eq_append_cons heq with ⟨-, rfl, rfl⟩ | ⟨rest, -, rfl⟩
    · exact h.lawful_next hturn
    · exact h.lawful before next rest rfl
  refine ⟨?_, ?_, ?_, ?_, hlawful⟩
  · rw [hturn.mode, h.mode, List.foldl_append]
    rfl
  · rw [hturn.submissions, h.submissions, List.filterMap_append, Host.filterMap_singleton]
  · simp only [List.filterMap_append, Host.filterMap_singleton]
    rw [h.held, List.append_assoc, hturn.held_balance, List.append_assoc]
  · simp only [List.filterMap_append, Host.filterMap_singleton]
    rw [h.failures, List.append_assoc, hturn.failures_balance, List.append_assoc]

/-- What is recorded up to a state goes on with the turns after it. -/
theorem Recorded.course (h : Recorded initial log j) (hcourse : Course j acts j') :
    Recorded initial (log ++ acts) j' := by
  induction acts generalizing log j with
  | nil =>
      cases hcourse
      rwa [List.append_nil]
  | cons act acts ih =>
      obtain ⟨j₁, hturn, hrest⟩ := hcourse
      rw [List.append_cons]
      exact ih (h.turn hturn) hrest

/-! ### What becomes of the entries that were taken -/

end ScriptedJournal

end FencedLedger
