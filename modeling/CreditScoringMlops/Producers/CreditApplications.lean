import CreditScoringMlops.Consumer.ScoringConsumer

/-!
# The producers of credit applications

The service and the script that send random applications to the input topic of the scoring
consumer. The draws of `random` are operations whose replies lie in their range. The producers
only enqueue: the broker takes what is enqueued to the topic at any later time, in any order,
and may do so more than once, since a request is retried.
-/

namespace CreditScoringMlops.Producers

open Python Interaction Scoring

/-! ## Draws -/

/-- A call of `random.randint` or `random.choice`. -/
inductive Draw where
  | randint (lower upper : ℤ)
  | choice (options : List ℤ)

/-- What it can return. -/
def Draw.allows : Draw → ℤ → Prop
  | randint lower upper, n => lower ≤ n ∧ n ≤ upper
  | choice options, n => n ∈ options

/-- All that it can return lies within some bounds. -/
def Draw.within (lower upper : ℤ) : Draw → Bool
  | randint a b => decide (lower ≤ a) && decide (b ≤ upper)
  | choice options => options.all fun n => decide (lower ≤ n) && decide (n ≤ upper)

/-- The value that it returns for a random number. Nothing is drawn from an empty range. -/
def Draw.sample (random : ℕ) : (draw : Draw) → Except PyExc { n : ℤ // draw.allows n }
  | randint lower upper =>
    if h : lower ≤ upper then
      .ok ⟨lower + (random : ℤ) % (upper - lower + 1), by
        have := Int.emod_nonneg random (show upper - lower + 1 ≠ 0 by omega)
        have := Int.emod_lt_of_pos random (show 0 < upper - lower + 1 by omega)
        exact ⟨by omega, by omega⟩⟩
    else .error (.valueError "empty range in randrange")
  | choice options =>
    if h : random % options.length < options.length then
      .ok ⟨options[random % options.length], List.getElem_mem h⟩
    else .error (.other "IndexError: Cannot choose from an empty sequence")

/-- A draw keeps the bounds of its range. -/
theorem Draw.le_of_within {draw : Draw} {lower upper n : ℤ} (hwithin : draw.within lower upper)
    (hallows : draw.allows n) : lower ≤ n ∧ n ≤ upper := by
  cases draw with
  | randint a b =>
    obtain ⟨ha, hb⟩ : lower ≤ a ∧ b ≤ upper := by simpa [within] using hwithin
    obtain ⟨hlower, hupper⟩ : a ≤ n ∧ n ≤ b := hallows
    omega
  | choice options =>
    have hall : ∀ m ∈ options, lower ≤ m ∧ m ≤ upper := by simpa [within] using hwithin
    exact hall n hallows

/-! ## Operations -/

/-- A message for the input topic. -/
structure Sent where
  key : Json
  value : Dict

/-- What a producer prints. -/
inductive Line where
  | started
  | stopping
  | deliveryFailed (error : String)
  | delivered
  | generated (applicationId amount duration age : Json)
  | sending (numberOfMessages : ℕ)
  | sent (index numberOfMessages : ℕ) (applicationId : Json)
  | flushing
  | stopped
  | finished

/-- The operations of the producers, and the two steps of the broker. -/
inductive Op where
  | draw (draw : Draw)
  | uuid4
  | utcNow
  | isRunning
  | produce (message : Sent)
  | serveReports
  | print (line : Line)
  | sleep
  | deliver (index : ℕ) (again : Bool)
  | giveUp (index : ℕ)

/-- The text of a UUID. -/
abbrev UuidText := { s : String // s.length = 36 }

/-- What an operation returns. A delivery report is the error, if there is one. -/
abbrev Op.Result : Op → Type
  | draw d => { n : ℤ // d.allows n }
  | uuid4 => UuidText
  | utcNow => Time
  | isRunning => Bool
  | serveReports => List (Option String)
  | _ => Unit

/-- The answers. -/
abbrev Op.Reply (op : Op) : Type := Except PyExc op.Result

/-- What the surroundings contribute to one operation. -/
structure Env where
  random : ℕ := 0
  uuid : UuidText := ⟨"00000000-0000-4000-8000-000000000000", by decide⟩
  now : Time := 0
  running : Bool := true
  produce : Except PyExc Unit := .ok ()
  reports : List (Option String) := []

/-- What is enqueued, and the partition of the topic. -/
structure World where
  inFlight : List Sent := []
  topic : List Sent := []

/-- The broker takes a message to the topic, and may do so again. -/
def execDeliver (index : ℕ) (again : Bool) (w : World) : World :=
  match w.inFlight[index]? with
  | none => w
  | some message =>
    { inFlight := if again then w.inFlight else w.inFlight.eraseIdx index
      topic := w.topic ++ [message] }

/-- The answer to an operation and the world after it. -/
def exec (op : Op) (env : Env) (w : World) : op.Reply × World :=
  match op with
  | .draw draw => (draw.sample env.random, w)
  | .uuid4 => (.ok env.uuid, w)
  | .utcNow => (.ok env.now, w)
  | .isRunning => (.ok env.running, w)
  | .produce message =>
    match env.produce with
    | .ok () => (.ok (), { w with inFlight := w.inFlight ++ [message] })
    | .error exc => (.error exc, w)
  | .serveReports => (.ok env.reports, w)
  | .print _ => (.ok (), w)
  | .sleep => (.ok (), w)
  | .deliver index again => (.ok (), execDeliver index again w)
  | .giveUp index => (.ok (), { w with inFlight := w.inFlight.eraseIdx index })

/-- Programs of a producer. -/
abbrev Handler (A : Type) := Program Op Op.Reply PyExc A

/-- Perform one operation and return its result, or raise. -/
def ask (op : Op) : Handler op.Result := do
  Program.ofExcept (← Program.request op)

/-! ## The applications -/

/-- The fields that all generators draw. -/
def applicationDraws : List (String × Draw) :=
  [("checking_account_status", .randint 1 4),
    ("duration_months", .choice [6, 12, 18, 24, 36, 48, 60]), ("credit_history", .randint 0 4),
    ("purpose", .randint 0 10), ("credit_amount", .randint 500 15000),
    ("savings_account", .randint 1 5), ("employment_since", .randint 1 5),
    ("installment_rate", .randint 1 4), ("personal_status_sex", .randint 1 4),
    ("other_debtors", .randint 1 3), ("residence_since", .randint 1 4), ("property", .randint 1 4),
    ("age", .randint 18 75), ("other_installment_plans", .randint 1 3), ("housing", .randint 1 3),
    ("existing_credits", .randint 1 4), ("job", .randint 1 4), ("people_liable", .randint 1 2),
    ("telephone", .randint 1 2), ("foreign_worker", .randint 1 2)]

/-- Draw the fields of a dictionary, one after the other. -/
def drawFields : List (String × Draw) → Handler Dict
  | [] => return []
  | (name, draw) :: rest => do
    let n ← ask (.draw draw)
    return (name, .int n.1) :: (← drawFields rest)

/-- `generate_credit_application` of the service. -/
def generateCreditApplication : Handler Dict := do
  let applicationId ← ask .uuid4
  let createdAt ← ask .utcNow
  return ("application_id", .str applicationId.1) :: ("created_at", .str (isoformat createdAt)) ::
    (← drawFields applicationDraws)

/-- `generate_credit_application` of the script. -/
def generateUndatedApplication : Handler Dict := do
  let applicationId ← ask .uuid4
  return ("application_id", .str applicationId.1) :: (← drawFields applicationDraws)

/-- `generate_application`, of the script that calls the scoring endpoint. -/
def generateApplication : Handler Dict := drawFields applicationDraws

/-- `application[key]`. -/
def item (application : Dict) (key : String) : Handler Json :=
  match application.get? key with
  | some value => return value
  | none => Program.raise (.keyError key)

/-! ## The producers -/

/-- `delivery_report`. -/
def deliveryReport : Option String → Handler Unit
  | some error => ask (.print (.deliveryFailed error))
  | none => ask (.print .delivered)

/-- `producer.poll(0)` and `producer.flush()`, which call back with what has arrived. -/
def serveReports : Handler Unit := do
  (← ask .serveReports).forM deliveryReport

/-- One round of the loop of the service. -/
def produceOne : Handler Unit := do
  let application ← generateCreditApplication
  ask (.produce { key := ← item application "application_id", value := application })
  serveReports
  ask (.print (.generated (← item application "application_id")
    (← item application "credit_amount") (← item application "duration_months")
    (← item application "age")))
  ask .sleep

/-- The loop of the service, which runs until a signal has come. -/
def produceWhileRunning : ℕ → Handler Unit
  | 0 => return ()
  | rounds + 1 => do
    if ← ask .isRunning then
      produceOne
      produceWhileRunning rounds

/-- `main` of the service. -/
def serviceMain (rounds : ℕ) : Handler Unit := do
  ask (.print .started)
  let ended ← (produceWhileRunning rounds).attempt
  ask (.print .flushing)
  serveReports
  ask (.print .stopped)
  Program.ofExcept ended

/-- `number_of_messages`. -/
def numberOfMessages : ℕ := 10

/-- One round of the loop of the script. -/
def sendOne (index : ℕ) : Handler Unit := do
  let application ← generateUndatedApplication
  ask (.produce { key := ← item application "application_id", value := application })
  serveReports
  ask (.print (.sent (index + 1) numberOfMessages (← item application "application_id")))
  ask .sleep

/-- `main` of the script. -/
def scriptMain : Handler Unit := do
  ask (.print (.sending numberOfMessages))
  (List.range numberOfMessages).forM sendOne
  serveReports
  ask (.print .finished)

/-- What can arrive: a producer, or a step of the broker. -/
inductive Request where
  | service (rounds : ℕ)
  | script
  | deliver (index : ℕ) (again : Bool)
  | giveUp (index : ℕ)

/-- The program of a request. -/
def serve : Request → Handler Unit
  | .service rounds => serviceMain rounds
  | .script => scriptMain
  | .deliver index again => ask (.deliver index again)
  | .giveUp index => ask (.giveUp index)

/-- Producers and the broker. -/
def system : Machine Op Op.Reply PyExc Env World Request Unit where
  program := serve
  exec _ := exec
  abort _ w := w

end CreditScoringMlops.Producers
