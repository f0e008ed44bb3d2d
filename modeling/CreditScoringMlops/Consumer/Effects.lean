import CreditScoringMlops.Interaction.Machine
import CreditScoringMlops.Python.Datetime
import CreditScoringMlops.Scoring.CreditApplication

/-!
# The operations of the scoring consumer and the world they act on

A consumer process is a program over `Op`. The world holds one partition of the input topic, the
committed offset of the group, the session of the member that holds the partition, the scoring
log, and the results on their way to the output topic. A process that subscribes takes the
partition over, as after a crash or a rebalance; the one that had it polls nothing more and
cannot commit. The producer only enqueues; what becomes of an enqueued result is a step of the
broker, at any later time.
-/

namespace CreditScoringMlops.Consumer

open Python Interaction Scoring

/-- What a message holds, kept as what decoding and `json.loads` make of it. There is JSON that
`json.loads` gives up: an integer with too many digits, or values that are nested too deeply. -/
inductive MessageValue where
  | null
  | undecodable (message : String)
  | notJson (message : String)
  | tooManyDigits (message : String)
  | tooDeep (message : String)
  | json (value : Json)

/-- A message of the partition. -/
structure Message where
  offset : ℕ
  value : MessageValue

/-- A scoring result on its way. Its message is ghost data. -/
structure ScoringResult where
  offset : ℕ
  key : Option String
  value : Dict

/-- What leaves a process early: an exception, or the interrupt that `except Exception` does not
catch. -/
inductive Raised where
  | exception (exc : PyExc)
  | keyboardInterrupt

/-- What `consumer.poll` returns. -/
inductive Polled where
  | nothing
  | endOfPartition
  | error (message : String)
  | message (m : Message)

/-- The lines that a process prints about a message, a report or an error. The offset is ghost
data. -/
inductive Line where
  | scored (offset : ℕ) (result : Dict)
  | invalidMessage (offset : ℕ) (exc : PyExc)
  | invalidPayload (offset : ℕ) (exc : PyExc)
  | failedToProcess (offset : ℕ) (exc : PyExc)
  | delivered
  | failedToDeliver (error : String)
  | consumerError (message : String)
  | stopping

/-- The operations. The offset of a log row is ghost data. -/
inductive Op where
  | subscribe
  | poll
  | loadFeatureConfig
  | predictProba (features : Features)
  | saveScoringLog (offset : ℕ) (row : ScoringLog)
  | utcNow
  | str (value : Json)
  | produce (result : ScoringResult)
  | serveReports
  | commit (message : Message)
  | print (line : Line)
  | close
  | deliver (index : ℕ) (acknowledged : Bool)

/-- What an operation returns. A delivery report is the error, if there is one. -/
abbrev Op.Result : Op → Type
  | poll => Polled
  | loadFeatureConfig => FeatureConfig
  | predictProba _ => PyFloat
  | utcNow => Time
  | str _ => String
  | serveReports => List (Option String)
  | _ => Unit

/-- The answers. -/
abbrev Op.Reply (op : Op) : Type := Except Raised op.Result

/-- What `poll` meets, other than the partition itself. -/
inductive PollOutcome where
  | nothing
  | endOfPartition
  | error (message : String)
  | raised (exc : PyExc)
  | message

/-- What the surroundings contribute to one operation. The configuration counts as loaded when
both thresholds are there and are numbers. -/
structure Env where
  interrupt : Bool := false
  poll : PollOutcome := .message
  config : Except PyExc FeatureConfig := .ok ⟨36, 2500⟩
  prediction : Except PyExc PyFloat := .ok (.finite 0)
  database : Except PyExc Unit := .ok ()
  rowWritten : Bool := false
  now : Time := 0
  text : String := ""
  produce : Except PyExc Unit := .ok ()
  reports : Except PyExc (List (Option String)) := .ok []
  commit : Except PyExc Unit := .ok ()

/-- The shared state. `holder` is the process that holds the partition, `resumed` the offset at
which it began and `position` the offset it polls next. -/
structure World where
  partition : List MessageValue
  committed : ℕ := 0
  holder : Option ℕ := none
  resumed : ℕ := 0
  position : ℕ := 0
  scoringLogs : List ScoringLog := []
  inFlight : List ScoringResult := []
  acknowledged : List ScoringResult := []

/-- Pass a result on, with the world unchanged. -/
def answer {A : Type} (w : World) (result : Except PyExc A) : Except Raised A × World :=
  (result.mapError .exception, w)

/-- What `poll` returns to a process. -/
def execPoll (i : ℕ) (env : Env) (w : World) : Except Raised Polled × World :=
  match env.poll with
  | .nothing => (.ok .nothing, w)
  | .endOfPartition => (.ok .endOfPartition, w)
  | .error message => (.ok (.error message), w)
  | .raised exc => (.error (.exception exc), w)
  | .message =>
    match w.partition[w.position]? with
    | some value =>
      if w.holder = some i then
        (.ok (.message ⟨w.position, value⟩), { w with position := w.position + 1 })
      else (.ok .nothing, w)
    | none => (.ok .nothing, w)

/-- A commit sets the offset of the group, if the process still holds the partition. One that raises
has not set it. -/
def execCommit (i : ℕ) (message : Message) (env : Env) (w : World) : Except Raised Unit × World :=
  match env.commit with
  | .error exc => (.error (.exception exc), w)
  | .ok () =>
    if w.holder = some i then (.ok (), { w with committed := message.offset + 1 })
    else (.error (.exception (.other "KafkaException: not the owner of the partition")), w)

/-- The insertion of a score into the log, which may have come through although it raises. -/
def execSave (row : ScoringLog) (env : Env) (w : World) : Except Raised Unit × World :=
  let saved := { w with scoringLogs := w.scoringLogs ++ [row] }
  match env.database with
  | .ok () => (.ok (), saved)
  | .error exc => (.error (.exception exc), if env.rowWritten then saved else w)

/-- The producer only enqueues a result. -/
def execProduce (result : ScoringResult) (env : Env) (w : World) : Except Raised Unit × World :=
  match env.produce with
  | .error exc => (.error (.exception exc), w)
  | .ok () => (.ok (), { w with inFlight := w.inFlight ++ [result] })

/-- The broker takes a result off the queue: it has it, or gives it up. -/
def execDeliver (index : ℕ) (acknowledged : Bool) (w : World) : World :=
  match w.inFlight[index]? with
  | none => w
  | some result =>
    { w with
      inFlight := w.inFlight.eraseIdx index
      acknowledged := if acknowledged then w.acknowledged ++ [result] else w.acknowledged }

/-- What happens to the group when a process leaves it. -/
def World.leave (w : World) (i : ℕ) : World :=
  { w with holder := if w.holder = some i then none else w.holder }

/-- The answer to an operation of process `i` that is not interrupted, and the world after it. The
partition comes to a process as it subscribes, and never back to one that has lost it. -/
def perform (i : ℕ) (op : Op) (env : Env) (w : World) : op.Reply × World :=
  match op with
  | .subscribe =>
    (.ok (), { w with holder := some i, resumed := w.committed, position := w.committed })
  | .poll => execPoll i env w
  | .loadFeatureConfig => answer w env.config
  | .predictProba _ => answer w env.prediction
  | .saveScoringLog _ row => execSave row env w
  | .utcNow => (.ok env.now, w)
  | .str _ => (.ok env.text, w)
  | .produce result => execProduce result env w
  | .serveReports => answer w env.reports
  | .commit message => execCommit i message env w
  | .print _ => (.ok (), w)
  | .close => (.ok (), w.leave i)
  | .deliver index acknowledged => (.ok (), execDeliver index acknowledged w)

/-- The answer to an operation and the world after it. An interrupt comes before the operation has
had any effect. -/
def exec (i : ℕ) (op : Op) (env : Env) (w : World) : op.Reply × World :=
  if env.interrupt then (.error .keyboardInterrupt, w) else perform i op env w

/-- A process that dies leaves the group; what it has enqueued may still be delivered. -/
def abort (i : ℕ) (w : World) : World := w.leave i

/-- Programs of a consumer process. -/
abbrev Handler (A : Type) := Program Op Op.Reply Raised A

/-- Perform one operation and return its result, or raise. -/
def ask (op : Op) : Handler op.Result := do
  Program.ofExcept (← Program.request op)

/-- Return a result or raise its exception. -/
def ofExcept {A : Type} (result : Except PyExc A) : Handler A :=
  Program.ofExcept (result.mapError .exception)

end CreditScoringMlops.Consumer
