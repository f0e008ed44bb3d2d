import CreditScoringMlops.Consumer.ResultLoss
import CreditScoringMlops.Scoring.ScoringLogs

/-!
# Every published score is logged

A discipline of the services: a row is inserted only if it is one of an application, a result is
enqueued only for a message that has been polled, after the row of its application has been
inserted, and the endpoint responds with the row it has inserted. Since rows are never removed, a
response or a result has its row in the table at all times from then on.
-/

namespace CreditScoringMlops.ScoringLogs

open Python Interaction Program Scoring
open Consumer (Validation Message MessageValue ScoringResult payloadOf cleanPayload)

/-! ## The discipline -/

/-- A row of an application. -/
def IsRowOf (application : CreditApplication) (row : ScoringLog) : Prop :=
  ∃ defaultProbability score, probabilityToScore defaultProbability = .ok score ∧
    row = rowOf application defaultProbability score

/-- A result for a message, which publishes a row of its application. -/
def IsResultOf (validate : Validation) (value : MessageValue) (row : ScoringLog) (result : Dict) :
    Prop :=
  ∃ payload application scoredAt, payloadOf value = .ok payload ∧
    validate (cleanPayload payload) = .ok application ∧ IsRowOf application row ∧
    result = resultOf payload row scoredAt

/-- The messages that a caller has polled, and the rows that it has inserted. -/
structure Book where
  polled : List Message := []
  inserted : List ScoringLog := []

namespace Book

/-- What it has done after an operation. -/
def next (s : Book) : (op : Op) → op.Reply → Book
  | .api (.saveScoringLog row), .ok _ => { s with inserted := s.inserted ++ [row] }
  | .consumer (.saveScoringLog _ row), .ok _ => { s with inserted := s.inserted ++ [row] }
  | .consumer .poll, .ok (.message message) => { s with polled := s.polled ++ [message] }
  | _, _ => s

/-- What it may do next. -/
def May (validate : Validation) (s : Book) : Op → Prop
  | .api (.saveScoringLog row) => ∃ application, IsRowOf application row
  | .consumer (.saveScoringLog _ row) => ∃ application, IsRowOf application row
  | .consumer (.produce result) => ∃ message ∈ s.polled, ∃ row ∈ s.inserted,
      message.offset = result.offset ∧ IsResultOf validate message.value row result.value
  | _ => True

end Book

/-- The discipline as a monitor. -/
def bookkeeping (validate : Validation) : Monitor Op Op.Reply Book where
  start := {}
  may := Book.May validate
  possible _ _ := True
  next := Book.next

/-- For the endpoint. -/
def apiBookkeeping (validate : Validation) : Monitor ScoringApi.Op ScoringApi.Op.Reply Book where
  start := {}
  may s op := Book.May validate s (.api op)
  possible _ _ := True
  next s op reply := Book.next s (.api op) reply

/-- For a consumer. -/
def consumerBookkeeping (validate : Validation) :
    Monitor Consumer.Op Consumer.Op.Reply Book where
  start := {}
  may s op := Book.May validate s (.consumer op)
  possible _ _ := True
  next s op reply := Book.next s (.consumer op) reply

section Programs

/-- What is returned, however exceptions are mapped. -/
theorem eq_ok_of_mapError {E E' A : Type} {f : E → E'} {x : Except E A} {a : A}
    (h : x.mapError f = .ok a) : x = .ok a := by
  cases x <;> cases h
  rfl

variable {A : Type} (validate : Validation) {s : Book}

/-- A program of the endpoint obeys in the system as it does by itself. -/
theorem obeys_ofApi {p : ScoringApi.Handler A} {Q : Book → A → Prop}
    (hp : p.Obeys (apiBookkeeping validate) Q (fun _ _ => True) s) :
    (ofApi p).Obeys (bookkeeping validate) Q (fun _ _ => True) s := by
  rw [ofApi, obeys_mapError]
  induction p generalizing s with
  | ret a => exact hp
  | raise exc => trivial
  | perform op next ih => exact ⟨hp.1, fun reply hreply => ih reply (hp.2 reply hreply)⟩

/-- So does one of a consumer. -/
theorem obeys_ofConsumer {p : Consumer.Handler A} {Q : Book → A → Prop}
    (hp : p.Obeys (consumerBookkeeping validate) Q (fun _ _ => True) s) :
    (ofConsumer p).Obeys (bookkeeping validate) Q (fun _ _ => True) s := by
  rw [ofConsumer, obeys_mapError]
  induction p generalizing s with
  | ret a => exact hp
  | raise raised => trivial
  | perform op next ih => exact ⟨hp.1, fun reply hreply => ih reply (hp.2 reply hreply)⟩

/-- One operation of the endpoint. -/
theorem obeys_askApi (op : ScoringApi.Op) {Q : Book → op.Result → Prop}
    (hmay : Book.May validate s (.api op)) (hok : ∀ a, Q (s.next (.api op) (.ok a)) a) :
    (ScoringApi.ask op).Obeys (apiBookkeeping validate) Q (fun _ _ => True) s := by
  rw [ScoringApi.ask, obeys_bind]
  refine ⟨hmay, ?_⟩
  rintro (exc | a) -
  · trivial
  · exact hok a

/-- What the endpoint responds is the row that it has inserted. -/
theorem obeys_scoreApplication (application : CreditApplication) :
    (ScoringApi.scoreApplication application).Obeys (apiBookkeeping validate)
      (fun s response => ∃ row ∈ s.inserted, IsRowOf application row ∧
        response = responseOf row response.topReasons) (fun _ _ => True) s := by
  unfold ScoringApi.scoreApplication
  rw [obeys_bind]
  refine obeys_askApi validate .loadFeatureConfig trivial fun config => ?_
  rw [obeys_bind]
  refine obeys_askApi validate (.predictProba _) trivial fun defaultProbability => ?_
  rw [obeys_bind]
  refine obeys_askApi validate (.shapValues _) trivial fun shapValues => ?_
  rw [obeys_bind]
  refine obeys_ofExcept _ (fun topReasons _ => ?_) fun _ _ => trivial
  rw [obeys_bind]
  refine obeys_ofExcept _ (fun score hscore => ?_) fun _ _ => trivial
  have hrow : IsRowOf application (rowOf application defaultProbability score) :=
    ⟨defaultProbability, score, hscore, rfl⟩
  rw [obeys_bind]
  refine obeys_askApi validate (.saveScoringLog _) ⟨application, hrow⟩ fun _ => ?_
  exact ⟨_, List.mem_concat_self, hrow, rfl⟩

/-- One operation of a consumer. -/
theorem obeys_askConsumer (op : Consumer.Op) {Q : Book → op.Result → Prop}
    (hmay : Book.May validate s (.consumer op)) (hok : ∀ a, Q (s.next (.consumer op) (.ok a)) a) :
    (Consumer.ask op).Obeys (consumerBookkeeping validate) Q (fun _ _ => True) s := by
  rw [Consumer.ask, obeys_bind]
  refine ⟨hmay, ?_⟩
  rintro (raised | a) -
  · trivial
  · exact hok a

/-- Operations that concern neither the book nor the results. -/
def isQuiet : Consumer.Op → Prop
  | .poll | .saveScoringLog .. | .produce _ => False
  | _ => True

/-- They leave the book alone. -/
theorem obeys_quiet {p : Consumer.Handler A} (hp : p.Uses isQuiet) :
    p.Obeys (consumerBookkeeping validate) (fun s' _ => s' = s) (fun s' _ => s' = s) s := by
  refine hp.obeys (fun s' op _ hop => ?_) (fun s' op reply hs' hop _ => ?_) rfl
  · change Book.May validate s' (.consumer op)
    cases op with
    | poll | saveScoringLog | produce => exact hop.elim
    | _ => trivial
  · change s'.next (.consumer op) reply = s
    cases op with
    | poll | saveScoringLog | produce => exact hop.elim
    | _ => exact hs'

/-- The scoring of a message that has been polled inserts a row for it. -/
theorem obeys_consumer_scoreApplication {message : Message} {payload : Dict}
    (hpayload : payloadOf message.value = .ok payload) (hpolled : message ∈ s.polled) :
    (Consumer.scoreApplication validate message.offset payload).Obeys
      (consumerBookkeeping validate)
      (fun s result => message ∈ s.polled ∧ ∃ row ∈ s.inserted,
        IsResultOf validate message.value row result) (fun _ _ => True) s := by
  unfold Consumer.scoreApplication
  rw [obeys_bind]
  refine obeys_ofExcept _ (fun application hvalid => ?_) fun _ _ => trivial
  rw [obeys_bind]
  refine obeys_askConsumer validate .loadFeatureConfig trivial fun config => ?_
  rw [obeys_bind]
  refine obeys_askConsumer validate (.predictProba _) trivial fun defaultProbability => ?_
  rw [obeys_bind]
  refine obeys_ofExcept _ (fun score hscore => ?_) fun _ _ => trivial
  have hvalid := eq_ok_of_mapError (eq_ok_of_mapError hvalid)
  have hrow : IsRowOf application (rowOf application defaultProbability score) :=
    ⟨defaultProbability, score, eq_ok_of_mapError hscore, rfl⟩
  rw [obeys_bind]
  refine obeys_askConsumer validate (.saveScoringLog ..) ⟨application, hrow⟩ fun _ => ?_
  rw [obeys_bind]
  refine obeys_askConsumer validate .utcNow trivial fun scoredAt => ?_
  exact ⟨hpolled, _, List.mem_concat_self, payload, application, scoredAt, hpayload, hvalid, hrow,
    rfl⟩

/-- What is enqueued then is a result for the message. -/
theorem obeys_scoreMessage {message : Message} (hpolled : message ∈ s.polled) :
    (Consumer.scoreMessage validate message).Obeys (consumerBookkeeping validate)
      (fun _ _ => True) (fun _ _ => True) s := by
  unfold Consumer.scoreMessage
  rw [obeys_bind]
  refine obeys_ofExcept _ (fun payload hpayload => ?_) fun _ _ => trivial
  rw [obeys_bind]
  refine (obeys_consumer_scoreApplication validate (eq_ok_of_mapError hpayload) hpolled).mono ?_
    fun _ _ h => h
  rintro s' result ⟨hpolled', row, hrow, hresult⟩
  rw [obeys_bind]
  refine (obeys_quiet validate (uses_keyOf (fun _ => trivial) _)).mono ?_ fun _ _ _ => trivial
  rintro _ key rfl
  rw [obeys_bind]
  refine obeys_askConsumer validate (.produce _) ⟨message, hpolled', row, hrow, rfl, hresult⟩
    fun _ => ?_
  have hquiet : (do
      Consumer.serveReports
      Consumer.ask (.commit message)
      Consumer.ask (.print (.scored message.offset result)) : Consumer.Handler Unit).Uses isQuiet :=
    (uses_serveReports trivial fun _ => trivial).bind fun _ =>
      (uses_ask (.commit message) trivial).bind fun _ => uses_ask (.print _) trivial
  exact (obeys_quiet validate hquiet).mono (fun _ _ _ => trivial) fun _ _ _ => trivial

/-- `process_message` keeps to that, whatever is raised. -/
theorem obeys_processMessage {message : Message} (hpolled : message ∈ s.polled) :
    (Consumer.processMessage validate message).Obeys (consumerBookkeeping validate)
      (fun _ _ => True) (fun _ _ => True) s := by
  have hhandled (s' : Book) (ended : Except Consumer.Raised Unit) :
      (handled message ended).Obeys (consumerBookkeeping validate)
        (fun _ _ => True) (fun _ _ => True) s' := by
    have hquiet : (handled message ended).Uses isQuiet :=
      (uses_handled message ended).weaken fun op hop => by cases op <;> exact hop
    exact (obeys_quiet validate hquiet).mono (fun _ _ _ => trivial) fun _ _ _ => trivial
  change ((Consumer.scoreMessage validate message).attempt >>= handled message).Obeys _ _ _ _
  rw [obeys_bind, obeys_attempt]
  exact (obeys_scoreMessage validate hpolled).mono (fun s' _ _ => hhandled s' _)
    fun s' _ _ => hhandled s' _

/-- So does the loop. -/
theorem obeys_consume (polls : ℕ) : (Consumer.consume validate polls).Obeys
    (consumerBookkeeping validate) (fun _ _ => True) (fun _ _ => True) s := by
  induction polls generalizing s with
  | zero => trivial
  | succ polls ih =>
    unfold Consumer.consume
    rw [obeys_bind]
    refine obeys_askConsumer validate .poll trivial fun polled => ?_
    rw [obeys_bind]
    have hrest {p : Consumer.Handler Unit} (hp : p.Uses isQuiet) (s' : Book) :
        p.Obeys (consumerBookkeeping validate)
          (fun s _ => (Consumer.consume validate polls).Obeys (consumerBookkeeping validate)
            (fun _ _ => True) (fun _ _ => True) s) (fun _ _ => True) s' :=
      (obeys_quiet validate hp).mono (fun _ _ _ => ih) fun _ _ _ => trivial
    cases polled with
    | nothing => exact hrest (uses_serveReports trivial fun _ => trivial) _
    | endOfPartition => exact ih
    | error error => exact hrest (uses_ask (.print (.consumerError error)) trivial) _
    | message message =>
      exact (obeys_processMessage validate List.mem_concat_self).mono (fun _ _ _ => ih)
        fun _ _ h => h

/-- And `main`. -/
theorem obeys_main (polls : ℕ) : (Consumer.main validate polls).Obeys
    (consumerBookkeeping validate) (fun _ _ => True) (fun _ _ => True) s := by
  have hquiet {p : Consumer.Handler Unit} (hp : p.Uses isQuiet) (s' : Book) :
      p.Obeys (consumerBookkeeping validate) (fun _ _ => True) (fun _ _ => True) s' :=
    (obeys_quiet validate hp).mono (fun _ _ _ => trivial) fun _ _ _ => trivial
  have hend (s' : Book) (ended : Except Consumer.Raised Unit) :
      (do
        Consumer.serveReports
        Consumer.ask .close
        Program.ofExcept ended : Consumer.Handler Unit).Obeys (consumerBookkeeping validate)
          (fun _ _ => True) (fun _ _ => True) s' :=
    hquiet ((uses_serveReports trivial fun _ => trivial).bind fun _ =>
      (uses_ask .close trivial).bind fun _ => uses_ofExcept ended) s'
  unfold Consumer.main
  rw [obeys_bind]
  refine obeys_askConsumer validate .subscribe trivial fun _ => ?_
  rw [obeys_bind, obeys_attempt, obeys_bind, obeys_attempt]
  refine (obeys_consume validate polls).mono (fun s' a _ => hend s' (.ok a)) fun s' raised _ => ?_
  cases raised with
  | keyboardInterrupt =>
    refine (obeys_quiet validate (s := s') (uses_ask (.print .stopping) trivial)).mono
      (fun s'' _ _ => hend s'' _) fun s'' _ _ => hend s'' _
  | exception exc => exact hend s' _

end Programs

/-- What a returned answer says of the book of its caller. -/
def IsBooked (s : Book) : Request → Answer → Prop
  | .score application, .scored response => ∃ row ∈ s.inserted, IsRowOf application row ∧
      response = responseOf row response.topReasons
  | _, _ => True

/-- Every program obeys. -/
theorem obeys_serve (validate : Validation) (r : Request) :
    (serve validate r).Obeys (bookkeeping validate) (fun s answer => IsBooked s r answer)
      (fun _ _ => True) {} := by
  have hquery {A : Type} {p : Handler A} (hp : p.Uses fun op => ∃ limit, op = .newest limit) :
      p.Obeys (bookkeeping validate) (fun _ _ => True) (fun _ _ => True) {} := by
    refine hp.obeys (I := fun _ => True) ?_ (fun _ _ _ _ _ _ => trivial) trivial
    rintro s _ - ⟨limit, rfl⟩
    trivial
  cases r with
  | score application =>
    rw [serve, obeys_map]
    exact obeys_ofApi validate (obeys_scoreApplication validate application)
  | scoringLogs limit =>
    rw [serve, obeys_map]
    refine hquery ((uses_request ⟨limit, rfl⟩).bind fun reply => ?_)
    cases reply <;> trivial
  | driftReport =>
    rw [serve, obeys_map]
    refine hquery ((uses_request ⟨1000, rfl⟩).bind fun reply => ?_)
    rcases reply with (_ | _ | _) | logs
    · trivial
    · trivial
    · trivial
    · change Uses _ (if logs.isEmpty then _ else _)
      split <;> trivial
  | consumer request =>
    rw [serve, obeys_map]
    refine obeys_ofConsumer validate ?_
    cases request with
    | main polls => exact obeys_main validate polls
    | deliver index acknowledged => exact obeys_askConsumer validate _ trivial fun _ => trivial

/-! ## The operations -/

section Operations

variable (i : ℕ) (op : Op) (env : Env) (w : World)

/-- An insertion adds one row, or none if it raises. -/
theorem insert_spec (row : ScoringLog) :
    (insert row env w).2.consumer = w.consumer ∧
      (((∃ exc, (insert row env w).1 = .error exc) ∧ (insert row env w).2.table = w.table) ∨
        ∃ stored, stored.log = row ∧ (insert row env w).2.table = w.table ++ [stored]) := by
  unfold insert
  cases env.consumer.database with
  | ok _ => exact ⟨rfl, .inr ⟨_, rfl, rfl⟩⟩
  | error exc =>
    dsimp only
    split
    · exact ⟨rfl, .inr ⟨_, rfl, rfl⟩⟩
    · exact ⟨rfl, .inl ⟨⟨exc, rfl⟩, rfl⟩⟩

/-- Among the operations only the insertions change the table. -/
theorem table_exec_of_inserts_eq_none (h : op.inserts = none) :
    (exec i op env w).2.table = w.table := by
  cases op with
  | newest limit => rfl
  | api op =>
    cases op with
    | saveScoringLog row => cases h
    | _ => rfl
  | consumer op =>
    cases op with
    | saveScoringLog offset row => cases h
    | _ => rfl

/-- They do nothing else. -/
theorem exec_of_inserts {row : ScoringLog} (h : op.inserts = some row) :
    (exec i op env w).2.consumer = w.consumer ∧
      ((∀ s : Book, s.next op (exec i op env w).1 = s) ∧ (exec i op env w).2.table = w.table ∨
        ∃ stored, stored.log = row ∧ (exec i op env w).2.table = w.table ++ [stored]) := by
  obtain ⟨hconsumer, hinsert⟩ := insert_spec env w row
  cases op with
  | newest limit => cases h
  | api op =>
    cases op with
    | saveScoringLog row' =>
      cases h
      refine ⟨hconsumer, hinsert.imp_left fun ⟨⟨exc, hexc⟩, htable⟩ => ⟨fun s => ?_, htable⟩⟩
      change s.next (.api (.saveScoringLog row)) (insert row env w).1 = s
      rw [hexc]
      rfl
    | _ => cases h
  | consumer op =>
    cases op with
    | saveScoringLog offset row' =>
      cases h
      simp only [exec, execConsumer]
      split
      · exact ⟨rfl, .inl ⟨fun _ => rfl, rfl⟩⟩
      · refine ⟨hconsumer, hinsert.imp_left fun ⟨⟨exc, hexc⟩, htable⟩ => ⟨fun s => ?_, htable⟩⟩
        rw [hexc]
        rfl
    | _ => cases h

/-- What the consumers act on changes as in their own system, but for the rows. -/
theorem consumer_exec {cop : Consumer.Op} (hop : (Op.consumer cop).inserts = none) :
    exec i (.consumer cop) env w =
      ((Consumer.exec i cop env.consumer w.consumer).1,
        { w with consumer := (Consumer.exec i cop env.consumer w.consumer).2 }) := by
  cases cop with
  | saveScoringLog offset row => cases hop
  | _ => rfl

end Operations

/-- The results on their way and at the broker. -/
def results (w : Consumer.World) : List ScoringResult := w.inFlight ++ w.acknowledged

/-- The broker makes no results. -/
theorem mem_results_of_execDeliver {index : ℕ} {acknowledged : Bool} {w : Consumer.World}
    {r : ScoringResult} (h : r ∈ results (Consumer.execDeliver index acknowledged w)) :
    r ∈ results w := by
  unfold Consumer.execDeliver at h
  split at h
  · exact h
  rename_i result hresult
  obtain hflight | hacknowledged := List.mem_append.mp h
  · exact List.mem_append_left _ (List.mem_of_mem_eraseIdx hflight)
  dsimp only at hacknowledged
  split at hacknowledged
  · obtain hmem | hlast := List.mem_append.mp hacknowledged
    · exact List.mem_append_right _ hmem
    · obtain rfl := List.mem_singleton.mp hlast
      exact List.mem_append_left _ (List.mem_of_getElem? hresult)
  · exact List.mem_append_right _ hacknowledged

/-- An operation enqueues at most its own result. -/
theorem inFlight_of_exec {i : ℕ} {op : Consumer.Op} {env : Consumer.Env} {w : Consumer.World}
    {r : ScoringResult} (h : r ∈ (Consumer.exec i op env w).2.inFlight) :
    r ∈ w.inFlight ∨ op = .produce r := by
  unfold Consumer.exec at h
  split at h
  · exact .inl h
  cases op with
  | produce result =>
    simp only [Consumer.perform, Consumer.execProduce] at h
    split at h
    · exact .inl h
    · obtain hmem | hlast := List.mem_append.mp h
      · exact .inl hmem
      · exact .inr (congrArg _ (List.mem_singleton.mp hlast).symm)
  | deliver index acknowledged =>
    simp only [Consumer.perform, Consumer.execDeliver] at h
    split at h
    · exact .inl h
    · exact .inl (List.mem_of_mem_eraseIdx h)
  | poll =>
    simp only [Consumer.perform, Consumer.execPoll] at h
    split at h <;> try exact .inl h
    split at h <;> try exact .inl h
    split at h <;> exact .inl h
  | saveScoringLog offset row =>
    simp only [Consumer.perform, Consumer.execSave] at h
    split at h <;> try exact .inl h
    split at h <;> exact .inl h
  | commit message =>
    simp only [Consumer.perform, Consumer.execCommit] at h
    split at h <;> try exact .inl h
    split at h <;> exact .inl h
  | _ => exact .inl h

/-- A result that is there after an operation was there before, or has been enqueued by it. -/
theorem mem_results_of_exec {i : ℕ} {op : Consumer.Op} {env : Consumer.Env} {w : Consumer.World}
    {r : ScoringResult} (h : r ∈ results (Consumer.exec i op env w).2) :
    r ∈ results w ∨ op = .produce r := by
  by_cases hdeliver : ∃ index acknowledged, op = .deliver index acknowledged
  · obtain ⟨index, acknowledged, rfl⟩ := hdeliver
    unfold Consumer.exec at h
    split at h
    · exact .inl h
    · exact .inl (mem_results_of_execDeliver h)
  have hframe := (Consumer.exec_frame i op env w fun index acknowledged heq =>
    hdeliver ⟨index, acknowledged, heq⟩).2
  rw [results, hframe, List.mem_append] at h
  obtain hflight | hacknowledged := h
  · obtain hmem | hlast := inFlight_of_exec hflight
    · exact .inl (List.mem_append_left _ hmem)
    · exact .inr hlast
  · exact .inl (List.mem_append_right _ hacknowledged)

/-! ## What is kept -/

/-- A result is one for the message at its offset, and publishes a row of the table. -/
def IsLogged (validate : Validation) (partition : List MessageValue) (table : List StoredLog)
    (r : ScoringResult) : Prop :=
  ∃ value, partition[r.offset]? = some value ∧
    ∃ stored ∈ table, IsResultOf validate value stored.log r.value

/-- What holds in every run: the rows are those of applications, those that a caller has inserted
are in the table, the messages it has polled are in the partition, and the results are logged. -/
structure Kept (validate : Validation) (partition : List MessageValue) (trace : List LogEntry)
    (w : World) : Prop where
  partition_eq : w.consumer.partition = partition
  isRowOf : ∀ stored ∈ w.table, ∃ application, IsRowOf application stored.log
  inserted : ∀ i, ∀ row ∈ ((bookkeeping validate).stateOf trace i).inserted,
    ∃ stored ∈ w.table, stored.log = row
  polled : ∀ i, ∀ message ∈ ((bookkeeping validate).stateOf trace i).polled,
    partition[message.offset]? = some message.value
  logged : ∀ r ∈ results w.consumer, IsLogged validate partition w.table r

section Step

variable {validate : Validation} {partition : List MessageValue} {trace : List LogEntry} {w : World}
  {i : ℕ} {env : Env} {op : Op}

/-- A logged result stays logged. -/
theorem IsLogged.mono {table table' : List StoredLog} {r : ScoringResult}
    (h : IsLogged validate partition table r) (htable : table ⊆ table') :
    IsLogged validate partition table' r := by
  obtain ⟨value, hvalue, stored, hstored, hresult⟩ := h
  exact ⟨value, hvalue, stored, htable hstored, hresult⟩

/-- Other operations than an insertion enter no row. -/
theorem inserted_next (s : Book) (hop : op.inserts = none) (reply : op.Reply) :
    (s.next op reply).inserted = s.inserted := by
  fun_cases Book.next s op reply <;> first | rfl | cases hop

/-- An insertion enters its row, and no message. -/
theorem next_of_inserts (s : Book) {row : ScoringLog} (hop : op.inserts = some row)
    (reply : op.Reply) : (s.next op reply).polled = s.polled ∧
      ∀ row' ∈ (s.next op reply).inserted, row' ∈ s.inserted ∨ row' = row := by
  have hnew (row' : ScoringLog) (h : row' ∈ s.inserted ++ [row]) : row' ∈ s.inserted ∨ row' = row :=
    (List.mem_append.mp h).imp_right List.mem_singleton.mp
  fun_cases Book.next s op reply
  · cases hop
    exact ⟨rfl, hnew⟩
  · cases hop
    exact ⟨rfl, hnew⟩
  · cases hop
  · exact ⟨rfl, fun _ h => .inl h⟩

/-- A message is entered if it is polled. -/
theorem polled_next (s : Book) {cop : Consumer.Op} {reply : cop.Reply} {message : Message}
    (h : message ∈ (s.next (.consumer cop) reply).polled) :
    message ∈ s.polled ∨ Consumer.polled message cop reply := by
  cases cop with
  | poll =>
    rcases reply with raised | (_ | _ | _ | m)
    all_goals try exact .inl h
    exact (List.mem_append.mp h).imp_right fun hlast => (List.mem_singleton.mp hlast).symm
  | saveScoringLog offset row => cases reply <;> exact .inl h
  | _ => exact .inl h

/-- An insertion keeps it: the row is one of an application, and in the table if its caller enters
it. -/
theorem Kept.snoc_inserts (h : Kept validate partition trace w) {row : ScoringLog}
    (hop : op.inserts = some row) (hrow : ∃ application, IsRowOf application row) :
    Kept validate partition (trace ++ [(system validate).entry i env op w])
      (exec i op env w).2 := by
  obtain ⟨hconsumer, htable⟩ := exec_of_inserts i op env w hop
  have hsub : w.table ⊆ (exec i op env w).2.table := by
    obtain ⟨-, htable⟩ | ⟨stored, -, htable⟩ := htable
    · exact htable ▸ List.Subset.refl _
    · exact htable ▸ List.subset_append_left _ _
  refine ⟨hconsumer ▸ h.partition_eq, fun stored hstored => ?_, fun j row' hrow' => ?_,
    fun j message hmessage => ?_, fun r hr => (h.logged r (hconsumer ▸ hr)).mono hsub⟩
  · obtain ⟨-, htable⟩ | ⟨new, rfl, htable⟩ := htable
    · exact h.isRowOf stored (htable ▸ hstored)
    · obtain hold | hnew := List.mem_append.mp (htable ▸ hstored)
      · exact h.isRowOf stored hold
      · obtain rfl := List.mem_singleton.mp hnew
        exact hrow
  · rw [Monitor.stateOf_concat] at hrow'
    have hold (hmem : row' ∈ ((bookkeeping validate).stateOf trace j).inserted) :
        ∃ stored ∈ (exec i op env w).2.table, stored.log = row' := by
      obtain ⟨stored, hstored, hlog⟩ := h.inserted j row' hmem
      exact ⟨stored, hsub hstored, hlog⟩
    split at hrow'
    · change row' ∈ (Book.next _ op (exec i op env w).1).inserted at hrow'
      obtain ⟨hsame, -⟩ | ⟨new, hnew, htable⟩ := htable
      · exact hold (by rwa [hsame] at hrow')
      · obtain hmem | rfl := (next_of_inserts _ hop _).2 row' hrow'
        · exact hold hmem
        · exact ⟨new, htable ▸ List.mem_concat_self, hnew⟩
    · exact hold hrow'
  · rw [Monitor.stateOf_concat] at hmessage
    split at hmessage
    · exact h.polled j message ((next_of_inserts _ hop _).1 ▸ hmessage)
    · exact h.polled j message hmessage

/-- So do the other operations: what is polled is in the partition, and a result is enqueued only
after its row has been inserted. -/
theorem Kept.snoc_other (h : Kept validate partition trace w)
    (hop : op.inserts = none)
    (hmay : Book.May validate ((bookkeeping validate).stateOf trace i) op) :
    Kept validate partition (trace ++ [(system validate).entry i env op w])
      (exec i op env w).2 := by
  have htable := table_exec_of_inserts_eq_none i op env w hop
  refine ⟨?_, fun stored hstored => h.isRowOf stored (htable ▸ hstored), fun j row hrow => ?_,
    fun j message hmessage => ?_, fun r hr => ?_⟩
  · cases op with
    | api op => cases op <;> first | exact h.partition_eq | cases hop
    | newest limit => exact h.partition_eq
    | consumer cop =>
      rw [consumer_exec i env w hop]
      exact (Consumer.exec_mono i cop env.consumer w.consumer).1.trans h.partition_eq
  · rw [htable]
    rw [Monitor.stateOf_concat] at hrow
    split at hrow
    · exact h.inserted j row (inserted_next _ hop (exec i op env w).1 ▸ hrow)
    · exact h.inserted j row hrow
  · rw [Monitor.stateOf_concat] at hmessage
    split at hmessage
    · change message ∈ (Book.next _ op (exec i op env w).1).polled at hmessage
      cases op with
      | api op => cases op <;> first | exact h.polled j message hmessage | cases hop
      | newest limit => exact h.polled j message hmessage
      | consumer cop =>
        rw [consumer_exec i env w hop] at hmessage
        obtain hold | hpolled := polled_next _ hmessage
        · exact h.polled j message hold
        · exact h.partition_eq ▸ Consumer.partition_of_polled i cop env.consumer w.consumer hpolled
    · exact h.polled j message hmessage
  · rw [htable]
    cases op with
    | api op => cases op <;> first | exact h.logged r hr | cases hop
    | newest limit => exact h.logged r hr
    | consumer cop =>
      rw [consumer_exec i env w hop] at hr
      obtain hold | rfl := mem_results_of_exec hr
      · exact h.logged r hold
      · obtain ⟨message, hmessage, row, hrow, hoffset, hresult⟩ := hmay
        obtain ⟨stored, hstored, rfl⟩ := h.inserted i row hrow
        exact ⟨message.value, hoffset ▸ h.polled i message hmessage, stored, hstored, hresult⟩

/-- One operation keeps it. -/
theorem Kept.snoc (h : Kept validate partition trace w)
    (hmay : Book.May validate ((bookkeeping validate).stateOf trace i) op) :
    Kept validate partition (trace ++ [(system validate).entry i env op w])
      (exec i op env w).2 := by
  cases hop : op.inserts with
  | none => exact h.snoc_other hop hmay
  | some row =>
    refine h.snoc_inserts hop ?_
    cases op with
    | newest limit => cases hop
    | api op =>
      cases op <;> cases hop
      exact hmay
    | consumer op =>
      cases op <;> cases hop
      exact hmay

end Step

/-! ## Runs -/

/-- Every run is disciplined. -/
theorem disciplined_runFrom (validate : Validation) (partition : List MessageValue)
    (events : List LogEvent) :
    (system validate).Disciplined (bookkeeping validate) (fun r s answer => IsBooked s r answer)
      (fun _ _ _ => True) { consumer := { partition } } (runFrom validate partition events) :=
  (system validate).disciplined_run (fun _ _ _ _ => trivial) (obeys_serve validate) _ events

/-- It keeps what one operation keeps. -/
theorem kept_runFrom (validate : Validation) (partition : List MessageValue)
    (events : List LogEvent) :
    Kept validate partition (runFrom validate partition events).trace
      (runFrom validate partition events).world := by
  have hlegal := (disciplined_runFrom validate partition events).legal
  generalize (runFrom validate partition events).world = w,
    (runFrom validate partition events).trace = trace at hlegal
  induction hlegal with
  | nil =>
    have hbook (i : ℕ) : (bookkeeping validate).stateOf ([] : List LogEntry) i = {} := rfl
    have hresults : results { partition } = [] := rfl
    exact ⟨rfl, fun _ h => (List.not_mem_nil h).elim, fun i => by simp [hbook],
      fun i => by simp [hbook], fun r h => (List.not_mem_nil (hresults ▸ h)).elim⟩
  | snoc i env op h hmay ih => exact ih.snoc hmay
  | abort i h ih => exact ⟨ih.partition_eq, ih.isRowOf, ih.inserted, ih.polled, ih.logged⟩

/-- The row of a response that has been returned is in the table. -/
theorem exists_stored_of_scored {validate : Validation} {partition : List MessageValue}
    {events : List LogEvent} {i : ℕ} {application : CreditApplication}
    {response : ScoringApi.ScoringResponse}
    (hcaller : (runFrom validate partition events).callers[i]? =
      some ⟨.score application, some (.ret (.scored response))⟩) :
    ∃ stored ∈ (runFrom validate partition events).world.table, IsRowOf application stored.log ∧
      response = responseOf stored.log response.topReasons := by
  obtain ⟨row, hrow, hbooked⟩ :=
    (disciplined_runFrom validate partition events).live i _ _ hcaller
  obtain ⟨stored, hstored, rfl⟩ := (kept_runFrom validate partition events).inserted i row hrow
  exact ⟨stored, hstored, hbooked⟩

/-- In every run of the services over one table, with any failures, interrupts and crashes: every
row is one of a valid application, every response of the endpoint is the row of its application,
which is in the table, and every result on its way or at the broker is one for the message at its
offset, whose application has its row in the table. -/
theorem scores_logged (validate : Validation) (partition : List MessageValue)
    (events : List LogEvent) :
    let c := runFrom validate partition events
    (∀ stored ∈ c.world.table, ∃ application, IsRowOf application stored.log) ∧
      (∀ (i : ℕ) (application : CreditApplication) (response : ScoringApi.ScoringResponse),
        c.callers[i]? = some ⟨.score application, some (.ret (.scored response))⟩ →
        ∃ stored ∈ c.world.table, IsRowOf application stored.log ∧
          response = responseOf stored.log response.topReasons) ∧
      ∀ r ∈ results c.world.consumer, IsLogged validate partition c.world.table r := by
  intro c
  have hkept := kept_runFrom validate partition events
  exact ⟨hkept.isRowOf, fun i application response => exists_stored_of_scored, hkept.logged⟩

end CreditScoringMlops.ScoringLogs
