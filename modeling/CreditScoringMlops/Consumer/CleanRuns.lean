import CreditScoringMlops.Consumer.InvalidMessages
import CreditScoringMlops.Scoring.LoggedScores

/-!
# Runs of the consumer without failures

A consumer process that nothing disturbs takes the messages from the committed offset on, one after
the other. It saves a row and enqueues a result for every valid message, once and in order, and
commits every message that it can read. The broker may deliver results meanwhile. Nothing is assumed
of what has happened before, so this is also what a process does that starts after a crash.
-/

namespace CreditScoringMlops.Consumer

open Python Interaction Machine Program Scoring ScoringLogs

/-! ## The contract -/

/-- The row that an operation has saved. -/
def savedRow : LogEntry → Option ScoringLog
  | ⟨_, _, .saveScoringLog _ row, .ok _, _, _⟩ => some row
  | _ => none

/-- The result that it has enqueued. -/
def enqueuedResult : LogEntry → Option ScoringResult
  | ⟨_, _, .produce result, .ok _, _, _⟩ => some result
  | _ => none

/-- Some operations more have saved these rows and enqueued these results. -/
structure Did (h h' : List LogEntry) (rows : List ScoringLog) (results : List ScoringResult) :
    Prop where
  saved : h'.filterMap savedRow = h.filterMap savedRow ++ rows
  enqueued : h'.filterMap enqueuedResult = h.filterMap enqueuedResult ++ results

/-- Nothing has been done yet. -/
theorem Did.refl (h : List LogEntry) : Did h h [] [] := by
  constructor <;> simp

/-- One thing after the other. -/
theorem Did.trans {h h' h'' : List LogEntry} {rows rows' : List ScoringLog}
    {results results' : List ScoringResult} (hfirst : Did h h' rows results)
    (hsecond : Did h' h'' rows' results') : Did h h'' (rows ++ rows') (results ++ results') := by
  constructor
  · rw [hsecond.saved, hfirst.saved, List.append_assoc]
  · rw [hsecond.enqueued, hfirst.enqueued, List.append_assoc]

/-- One operation. -/
theorem Did.snoc (h : List LogEntry) (e : LogEntry) :
    Did h (h ++ [e]) (savedRow e).toList (enqueuedResult e).toList := by
  constructor
  · rw [List.filterMap_append]
    cases hrow : savedRow e <;> simp [hrow]
  · rw [List.filterMap_append]
    cases hresult : enqueuedResult e <;> simp [hresult]

section Operations

variable {validate : Validation} {i : ℕ} {h : List LogEntry} {w : World} {A : Type}

/-- Operations that neither save, enqueue, poll nor commit. -/
def isAside : Op → Bool
  | .loadFeatureConfig => true
  | .predictProba _ => true
  | .utcNow => true
  | .str _ => true
  | .serveReports => true
  | .print _ => true
  | _ => false

/-- They return where nothing fails, and the model answers a number. -/
def answers : (op : Op) → op.Reply → Prop
  | .predictProba _, reply => ∃ p, reply = .ok (.finite p)
  | _, reply => ∃ a, reply = .ok a

/-- The discipline that permits nothing else. -/
def aside : Monitor Op Op.Reply Unit where
  start := ()
  may _ op := isAside op
  possible := answers
  next _ _ _ := ()

end Operations

/-! ## One message -/

section Processing

variable {validate : Validation} {i : ℕ} {h : List LogEntry} {w : World}

/-- What has been published of a message: the row that was saved, and the result that was
enqueued. -/
structure Publication where
  message : Message
  row : ScoringLog
  result : ScoringResult

/-- The result is one for the message, publishes the row, and has the id of the application for
its key. -/
structure Publication.IsRight (validate : Validation) (x : Publication) : Prop where
  offset_eq : x.result.offset = x.message.offset
  isResultOf : IsResultOf validate x.message.value x.row x.result.value
  key_eq : ∀ payload s, payloadOf x.message.value = .ok payload →
    payload.get? "application_id" = some (.str s) →
      x.result.key = if s.isEmpty then none else some s

/-- Messages have been handled: each valid one has been published once, in their order. -/
def Handled (validate : Validation) (messages : List Message) (h h' : List LogEntry) : Prop :=
  ∃ published : List Publication,
    published.map (·.message) = messages.filter (·.value.isValid validate) ∧
    (∀ x ∈ published, x.IsRight validate) ∧
    Did h h' (published.map (·.row)) (published.map (·.result))

/-- Some messages, and then some more. -/
theorem Handled.append {messages messages' : List Message} {h h' h'' : List LogEntry}
    (hfirst : Handled validate messages h h') (hsecond : Handled validate messages' h' h'') :
    Handled validate (messages ++ messages') h h'' := by
  obtain ⟨published, hmessages, hright, hdid⟩ := hfirst
  obtain ⟨published', hmessages', hright', hdid'⟩ := hsecond
  refine ⟨published ++ published', ?_, ?_, ?_⟩
  · rw [List.map_append, List.filter_append, hmessages, hmessages']
  · exact fun x hx => (List.mem_append.mp hx).elim (hright x) (hright' x)
  · rw [List.map_append, List.map_append]
    exact hdid.trans hdid'

/-- No messages. -/
theorem Handled.nil {h h' : List LogEntry} (hdid : Did h h' [] []) : Handled validate [] h h' :=
  ⟨[], rfl, fun _ hx => (List.not_mem_nil hx).elim, hdid⟩

/-- Operations before that publish nothing. -/
theorem Handled.after {messages : List Message} {h h' h'' : List LogEntry} (hdid : Did h h' [] [])
    (hhandled : Handled validate messages h' h'') : Handled validate messages h h'' :=
  (Handled.nil hdid).append hhandled

/-- Operations afterwards that publish nothing. -/
theorem Handled.before {messages : List Message} {h h' h'' : List LogEntry}
    (hhandled : Handled validate messages h h') (hdid : Did h' h'' [] []) :
    Handled validate messages h h'' := by
  simpa using hhandled.append (.nil hdid)

end Processing

/-! ## The loop -/

section Loop

variable {validate : Validation} {i : ℕ} {h : List LogEntry} {w : World}

end Loop

end CreditScoringMlops.Consumer
