import CreditScoringMlops.Consumer.ConsumerProtocol
import CreditScoringMlops.Data.Newest
import CreditScoringMlops.Interaction.Translation
import CreditScoringMlops.Scoring.ServicesAgree

/-!
# The scoring log

The table `scoring_logs` is what the services share: the endpoint and the consumers insert the rows
they have scored, the endpoint shows the newest ones, and the drift report reads its current data
from them. Here requests of all four kinds run interleaved, with the broker, over one table. What
leaves the services has a row in the table, and rows are only ever added.
-/

namespace CreditScoringMlops.ScoringLogs

open Python Interaction Program Scoring
open Consumer (Validation Message MessageValue ScoringResult payloadOf cleanPayload)

/-! ## The system -/

/-- A row of the table. -/
structure StoredLog where
  id : ℕ
  log : ScoringLog
  createdAt : Time

/-- What a query raises: `OperationalError`, `ProgrammingError`, or `DataError`. -/
inductive QueryError where
  | operational (message : String)
  | programming (message : String)
  | data (message : String)

/-- The operations: those of the services, and the query for the newest rows. -/
inductive Op where
  | api (op : ScoringApi.Op)
  | consumer (op : Consumer.Op)
  | newest (limit : ℤ)

/-- The answers. -/
abbrev Op.Reply : Op → Type
  | api op => op.Reply
  | consumer op => op.Reply
  | newest _ => Except QueryError (List StoredLog)

/-- What leaves a program early. -/
inductive Raised where
  | exception (exc : PyExc)
  | keyboardInterrupt
  | database (error : QueryError)
  | runtimeError (cause : QueryError)

/-- The exceptions of the consumer. -/
def Raised.ofConsumer : Consumer.Raised → Raised
  | .exception exc => .exception exc
  | .keyboardInterrupt => .keyboardInterrupt

/-- The row that an operation inserts. -/
def Op.inserts : Op → Option ScoringLog
  | .api (.saveScoringLog row) => some row
  | .consumer (.saveScoringLog _ row) => some row
  | _ => none

/-- What the surroundings contribute to one operation. The sequence of the ids may skip some, and
rows of one time come in any order. -/
structure Env where
  consumer : Consumer.Env := {}
  shapValues : Except PyExc ShapValues := .ok (.single [[]])
  skipped : ℕ := 0
  query : Except QueryError Unit := .ok ()
  rank : ℕ → ℕ := id

/-- The shared state: what the consumers act on, but for the rows they insert, and the table in the
order of its commits. -/
structure World where
  consumer : Consumer.World
  table : List StoredLog := []
  nextId : ℕ := 0

/-- The insertion of a row, which may have come through although it raises. -/
def insert (row : ScoringLog) (env : Env) (w : World) : Except PyExc Unit × World :=
  let id := w.nextId + env.skipped
  let inserted := { w with
    table := w.table ++ [⟨id, row, env.consumer.now⟩], nextId := id + 1 }
  match env.consumer.database with
  | .ok () => (.ok (), inserted)
  | .error exc => (.error exc, if env.consumer.rowWritten then inserted else w)

/-- `ORDER BY created_at DESC`. -/
def newer (rank : ℕ → ℕ) (a b : StoredLog) : Prop :=
  b.createdAt < a.createdAt ∨ (b.createdAt = a.createdAt ∧ rank a.id ≤ rank b.id)

instance (rank : ℕ → ℕ) : DecidableRel (newer rank) :=
  fun _ _ => inferInstanceAs (Decidable (_ ∨ _))

/-- The query for the newest rows. A negative limit is an error of the data. -/
def newest (limit : ℤ) (env : Env) (w : World) : Except QueryError (List StoredLog) :=
  match env.query with
  | .error error => .error error
  | .ok () =>
    if limit < 0 then .error (.data "LIMIT must not be negative")
    else .ok ((w.table.insertionSort (newer env.rank)).take limit.toNat)

/-- An operation of the endpoint. -/
def execApi (op : ScoringApi.Op) (env : Env) (w : World) : op.Reply × World :=
  match op with
  | .loadFeatureConfig => (env.consumer.config, w)
  | .predictProba _ => (env.consumer.prediction, w)
  | .shapValues _ => (env.shapValues, w)
  | .saveScoringLog row => insert row env w

/-- An operation of a consumer that inserts nothing. -/
def execOther (i : ℕ) (op : Consumer.Op) (env : Env) (w : World) : op.Reply × World :=
  let (reply, consumer) := Consumer.exec i op env.consumer w.consumer
  (reply, { w with consumer })

/-- An operation of a consumer. -/
def execConsumer (i : ℕ) (op : Consumer.Op) (env : Env) (w : World) : op.Reply × World :=
  match op with
  | .saveScoringLog _ row =>
    if env.consumer.interrupt then (.error .keyboardInterrupt, w)
    else
      let (result, inserted) := insert row env w
      (result.mapError .exception, inserted)
  | op => execOther i op env w

/-- The answer to an operation and the world after it. -/
def exec (i : ℕ) (op : Op) (env : Env) (w : World) : op.Reply × World :=
  match op with
  | .api op => execApi op env w
  | .consumer op => execConsumer i op env w
  | .newest limit => (newest limit env w, w)

/-- Programs of the system. -/
abbrev Handler (A : Type) := Program Op Op.Reply Raised A

/-- Send the query. -/
def query (limit : ℤ) : Handler (Except QueryError (List StoredLog)) :=
  Program.request (Op.newest limit)

/-- `get_latest_scoring_logs`. -/
def getLatestScoringLogs (limit : ℤ := 10) : Handler (List StoredLog) := do
  match ← query limit with
  | .ok logs => return logs
  | .error error => Program.raise (.database error)

/-- The columns that the drift report compares. -/
structure CurrentRow where
  age : ℤ
  durationMonths : ℤ
  creditAmount : PyFloat

/-- The columns of a row. -/
def StoredLog.currentRow (stored : StoredLog) : CurrentRow where
  age := stored.log.age
  durationMonths := stored.log.durationMonths
  creditAmount := stored.log.creditAmount

/-- `load_current_data`. -/
def loadCurrentData : Handler (List CurrentRow) := do
  match ← query 1000 with
  | .error (.programming message) => Program.raise (.runtimeError (.programming message))
  | .error (.operational message) => Program.raise (.runtimeError (.operational message))
  | .error error => Program.raise (.database error)
  | .ok logs =>
    if logs.isEmpty then
      Program.raise (.exception (.valueError "No production scoring logs found in database"))
    else return logs.map StoredLog.currentRow

/-- What can arrive: an application or a query at the endpoint, a drift report, a consumer process,
or a step of the broker. -/
inductive Request where
  | score (application : CreditApplication)
  | scoringLogs (limit : ℤ)
  | driftReport
  | consumer (request : Consumer.Request)

/-- What is returned. -/
inductive Answer where
  | scored (response : ScoringApi.ScoringResponse)
  | logs (logs : List StoredLog)
  | currentData (rows : List CurrentRow)
  | done

/-- A program of the endpoint in the system. -/
def ofApi {A : Type} (p : ScoringApi.Handler A) : Handler A :=
  (p.translate fun op => perform (Op.api op) ret).mapError .exception

/-- A program of a consumer in the system. -/
def ofConsumer {A : Type} (p : Consumer.Handler A) : Handler A :=
  (p.translate fun op => perform (Op.consumer op) ret).mapError .ofConsumer

/-- The program of a request. -/
def serve (validate : Validation) : Request → Handler Answer
  | .score application => .scored <$> ofApi (ScoringApi.scoreApplication application)
  | .scoringLogs limit => .logs <$> getLatestScoringLogs limit
  | .driftReport => .currentData <$> loadCurrentData
  | .consumer request => (fun _ => .done) <$> ofConsumer (Consumer.serve validate request)

/-- All of them over one table. -/
def system (validate : Validation) : Machine Op Op.Reply Raised Env World Request Answer where
  program := serve validate
  exec := exec
  abort i w := { w with consumer := Consumer.abort i w.consumer }

/-- Entries of the traces. -/
abbrev LogEntry := Entry Op Op.Reply Env World

/-- Events of the runs. -/
abbrev LogEvent := Event Env Request

/-- A run over the messages of a partition, from an empty table. -/
def runFrom (validate : Validation) (partition : List MessageValue) (events : List LogEvent) :
    Config Op Op.Reply Raised Env World Request Answer :=
  (system validate).run { consumer := { partition } } events

end CreditScoringMlops.ScoringLogs
