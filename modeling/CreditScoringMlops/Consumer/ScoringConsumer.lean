import CreditScoringMlops.Consumer.Effects

/-!
# The scoring consumer

The consumer of credit applications: it scores each message of the input topic, enqueues the
result for the output topic and commits the offset. The validation of the payload by the schema
is a parameter. The loop of `main` is cut off after a number of polls, since a process may stop
anywhere; every finite run of it is a run with enough of them.
-/

namespace CreditScoringMlops.Consumer

open Python Interaction Scoring

/-- `CreditApplication(**payload)`, or the message of its `ValidationError`. -/
abbrev Validation := Dict → Except String CreditApplication

/-- `decode`, `json.loads` and the test for an object. -/
def payloadOf : MessageValue → Except PyExc Dict
  | .null => .error (.attributeError "'NoneType' object has no attribute 'decode'")
  | .undecodable message => .error (.unicodeDecodeError message)
  | .notJson message => .error (.jsonDecodeError message)
  | .tooManyDigits message => .error (.valueError message)
  | .tooDeep message => .error (.other message)
  | .json (.obj fields) => .ok fields
  | .json _ => .error (.valueError "Kafka message payload must be a JSON object")

/-- The payload without the metadata fields. -/
def cleanPayload (payload : Dict) : Dict :=
  payload.filter fun field => field.1 ∉ ["application_id", "created_at"]

/-- A message holds a valid application. -/
def MessageValue.isValid (validate : Validation) (value : MessageValue) : Bool :=
  match payloadOf value with
  | .ok payload => (validate (cleanPayload payload)).toBool
  | .error _ => false

/-- `score_application`. -/
def scoreApplication (validate : Validation) (offset : ℕ) (payload : Dict) : Handler Dict := do
  let applicationId := (payload.get? "application_id").getD .null
  let application ← ofExcept ((validate (cleanPayload payload)).mapError .validationError)
  let features := buildFeatures application (← ask .loadFeatureConfig)
  let defaultProbability ← ask (.predictProba features)
  let score ← ofExcept (probabilityToScore defaultProbability)
  let riskLevel := getRiskLevel defaultProbability
  let decision := getDecision defaultProbability
  ask (.saveScoringLog offset
    { age := application.age, durationMonths := application.durationMonths
      creditAmount := application.creditAmount.1, defaultProbability, score, riskLevel, decision
      modelName })
  let scoredAt ← ask .utcNow
  return [("application_id", applicationId),
    ("default_probability", .float (roundToFour defaultProbability)), ("score", .int score),
    ("risk_level", .str riskLevel.value), ("decision", .str decision.value),
    ("model_name", .str modelName), ("scored_at", .str (isoformat scoredAt))]

/-- `str(application_id) if application_id else None`. -/
def keyOf : Json → Handler (Option String)
  | .str s => return if s.isEmpty then none else some s
  | value => if value.truthy then some <$> ask (.str value) else return none

/-- `delivery_report`. -/
def deliveryReport : Option String → Handler Unit
  | some error => ask (.print (.failedToDeliver error))
  | none => ask (.print .delivered)

/-- `producer.poll(0)` and `producer.flush(timeout=10)`, which call back with what has arrived. -/
def serveReports : Handler Unit := do
  (← ask .serveReports).forM deliveryReport

/-- The `try` block of `process_message`. -/
def scoreMessage (validate : Validation) (message : Message) : Handler Unit := do
  let payload ← ofExcept (payloadOf message.value)
  let result ← scoreApplication validate message.offset payload
  let key ← keyOf ((result.get? "application_id").getD .null)
  ask (.produce { offset := message.offset, key, value := result })
  serveReports
  ask (.commit message)
  ask (.print (.scored message.offset result))

/-- A validation error, which is a value error in the first place. -/
def isValidationError : PyExc → Bool
  | .validationError _ => true
  | _ => false

/-- `process_message`. -/
def processMessage (validate : Validation) (message : Message) : Handler Unit := do
  match ← (scoreMessage validate message).attempt with
  | .ok () => return ()
  | .error .keyboardInterrupt => Program.raise .keyboardInterrupt
  | .error (.exception exc) =>
    if exc.isValueError then
      ask (.print (.invalidMessage message.offset exc))
      ask (.commit message)
    else if isValidationError exc then
      ask (.print (.invalidPayload message.offset exc))
      ask (.commit message)
    else
      ask (.print (.failedToProcess message.offset exc))

/-- One round of the loop of `main`, once it has polled. -/
def handlePolled (validate : Validation) : Polled → Handler Unit
  | .nothing => serveReports
  | .endOfPartition => return ()
  | .error message => ask (.print (.consumerError message))
  | .message m => processMessage validate m

/-- The loop of `main`. -/
def consume (validate : Validation) : ℕ → Handler Unit
  | 0 => return ()
  | polls + 1 => do
    handlePolled validate (← ask .poll)
    consume validate polls

/-- `main`. -/
def main (validate : Validation) (polls : ℕ) : Handler Unit := do
  ask .subscribe
  let ended ← Program.attempt (do
    match ← (consume validate polls).attempt with
    | .error .keyboardInterrupt => ask (.print .stopping)
    | ended => Program.ofExcept ended)
  serveReports
  ask .close
  Program.ofExcept ended

/-- What can arrive: a consumer process, or a step of the broker. -/
inductive Request where
  | main (polls : ℕ)
  | deliver (index : ℕ) (acknowledged : Bool)

/-- The program of a request. -/
def serve (validate : Validation) : Request → Handler Unit
  | .main polls => main validate polls
  | .deliver index acknowledged => ask (.deliver index acknowledged)

/-- Consumer processes and the broker. -/
def system (validate : Validation) : Machine Op Op.Reply Raised Env World Request Unit where
  program := serve validate
  exec := exec
  abort := abort

/-- Entries of the traces. -/
abbrev LogEntry := Entry Op Op.Reply Env World

/-- Events of the runs. -/
abbrev ConsumerEvent := Event Env Request

/-- A run over the messages of a partition, from a group that has committed nothing. -/
def runFrom (validate : Validation) (partition : List MessageValue) (events : List ConsumerEvent) :
    Config Op Op.Reply Raised Env World Request Unit :=
  (system validate).run { partition } events

end CreditScoringMlops.Consumer
