import CreditScoringMlops.Scoring.PublishedRecord

/-!
# The two scoring services against each other

The endpoint and the consumer score with copies of the same lines, but only the endpoint explains
the scoring, before it saves it. Here both run against the same backends. The row that an
application should get is stated once, and each service is compared with it.
-/

namespace CreditScoringMlops.Scoring

open Python Interaction Program
open Consumer (Validation Message Raised payloadOf cleanPayload)

/-- The arguments of `save_scoring_log`, as a row. -/
def rowOf (application : CreditApplication) (defaultProbability : PyFloat) (score : ℤ) :
    ScoringLog where
  age := application.age
  durationMonths := application.durationMonths
  creditAmount := application.creditAmount.1
  defaultProbability := defaultProbability
  score := score
  riskLevel := getRiskLevel defaultProbability
  decision := getDecision defaultProbability
  modelName := modelName

/-- What both services call: the feature configuration, the model, the explainer and the
database. -/
structure Backends where
  config : Except PyExc FeatureConfig
  model : Features → Except PyExc PyFloat
  explainer : Features → Except PyExc ShapValues
  database : ScoringLog → Except PyExc Unit

namespace Backends

variable (b : Backends)

/-- They answer the endpoint. -/
def api : (op : ScoringApi.Op) → op.Reply
  | .loadFeatureConfig => b.config
  | .predictProba features => b.model features
  | .shapValues features => b.explainer features
  | .saveScoringLog row => b.database row

/-- They answer the consumer, which does more than score. -/
def consumer (rest : (op : Consumer.Op) → op.Reply) : (op : Consumer.Op) → op.Reply
  | .loadFeatureConfig => b.config.mapError .exception
  | .predictProba features => (b.model features).mapError .exception
  | .saveScoringLog _ row => (b.database row).mapError .exception
  | op => rest op

/-- The row of an application. -/
def row (application : CreditApplication) : Except PyExc ScoringLog := do
  let config ← b.config
  let defaultProbability ← b.model (buildFeatures application config)
  let score ← probabilityToScore defaultProbability
  return rowOf application defaultProbability score

/-- The row, if it comes to be saved. -/
def saved (application : CreditApplication) : Except PyExc ScoringLog := do
  let row ← b.row application
  b.database row
  return row

/-- The reasons of its scoring. -/
def reasons (application : CreditApplication) : Except PyExc (List ExplanationReason) := do
  let config ← b.config
  let shapValues ← b.explainer (buildFeatures application config)
  getTopReasons shapValues (ScoringApi.numbersOf (servingFeatures config application)) 3

end Backends

/-- What the endpoint responds for a row. -/
def responseOf (row : ScoringLog) (topReasons : List ExplanationReason) :
    ScoringApi.ScoringResponse where
  defaultProbability := roundToFour row.defaultProbability
  score := row.score
  riskLevel := row.riskLevel
  decision := row.decision
  modelName := row.modelName
  topReasons := topReasons

/-- What the consumer publishes for a row. -/
def resultOf (payload : Dict) (row : ScoringLog) (scoredAt : Time) : Dict :=
  [("application_id", (payload.get? "application_id").getD .null),
    ("default_probability", .float (roundToFour row.defaultProbability)), ("score", .int row.score),
    ("risk_level", .str row.riskLevel.value), ("decision", .str row.decision.value),
    ("model_name", .str row.modelName), ("scored_at", .str (isoformat scoredAt))]

/-- Both carry the same record. -/
theorem carries_resultOf (payload : Dict) (row : ScoringLog) (scoredAt : Time)
    (topReasons : List ExplanationReason) :
    Carries (resultOf payload row scoredAt) (responseRecord (responseOf row topReasons)) :=
  ⟨rfl, rfl, rfl, rfl⟩

/-! ## The endpoint -/

/-- The row that an exchange of the endpoint has saved. -/
def savedByApi : Exchange ScoringApi.Op ScoringApi.Op.Reply → Option ScoringLog
  | ⟨.saveScoringLog row, .ok ()⟩ => some row
  | _ => none

section Api

variable (b : Backends) (application : CreditApplication)

/-- With reasons to give, the endpoint responds with the row it saves, or raises what saving it
raises. -/
theorem converse_api {topReasons : List ExplanationReason}
    (hreasons : b.reasons application = .ok topReasons) :
    let c := (ScoringApi.scoreApplication application).converse b.api
    c.1.filterMap savedByApi = (b.saved application).toOption.toList ∧
      c.2 = (responseOf · topReasons) <$> b.saved application := by
  obtain ⟨config, hconfig, hreasons⟩ := bind_eq_ok.mp hreasons
  obtain ⟨shapValues, hshap, htop⟩ := bind_eq_ok.mp hreasons
  have hapi : b.api .loadFeatureConfig = .ok config := hconfig
  have hexplainer : b.api (.shapValues (buildFeatures application config)) = .ok shapValues := hshap
  have hpredict : b.api (.predictProba (buildFeatures application config)) = b.model _ := rfl
  have hsave (row : ScoringLog) : b.api (.saveScoringLog row) = b.database row := rfl
  simp only [ScoringApi.scoreApplication, ScoringApi.ask, converse_bind, converse_request,
    converse_ofExcept, hapi, hexplainer, hpredict, hsave, htop, Backends.saved, Backends.row,
    hconfig, ok_bind]
  cases b.model (buildFeatures application config) with
  | error exc => exact ⟨rfl, rfl⟩
  | ok defaultProbability =>
    simp only [ok_bind]
    cases probabilityToScore defaultProbability with
    | error exc => exact ⟨rfl, rfl⟩
    | ok score =>
      cases hsaved : b.database (rowOf application defaultProbability score) with
      | error exc =>
        simp only [rowOf] at hsaved
        simp only [ok_bind, pure_bind, rowOf, hsaved]
        exact ⟨rfl, rfl⟩
      | ok _ =>
        simp only [rowOf] at hsaved
        simp only [ok_bind, pure_bind, rowOf, hsaved]
        exact ⟨rfl, rfl⟩

/-- Without reasons it saves nothing and raises, whatever the model says. -/
theorem converse_api_of_no_reasons {exc : PyExc} (hreasons : b.reasons application = .error exc) :
    let c := (ScoringApi.scoreApplication application).converse b.api
    c.1.filterMap savedByApi = [] ∧ ∃ exc', c.2 = .error exc' := by
  have hpredict (features : Features) : b.api (.predictProba features) = b.model features := rfl
  simp only [ScoringApi.scoreApplication, ScoringApi.ask, converse_bind, converse_request,
    converse_ofExcept, hpredict]
  cases hconfig : b.config with
  | error exc' =>
    have hapi : b.api .loadFeatureConfig = .error exc' := hconfig
    simp only [hapi]
    exact ⟨rfl, exc', rfl⟩
  | ok config =>
    have hapi : b.api .loadFeatureConfig = .ok config := hconfig
    rw [Backends.reasons, hconfig, ok_bind] at hreasons
    simp only [hapi]
    cases b.model (buildFeatures application config) with
    | error exc' => exact ⟨rfl, exc', rfl⟩
    | ok defaultProbability =>
      cases hshap : b.explainer (buildFeatures application config) with
      | error exc' =>
        have hexplainer : b.api (.shapValues (buildFeatures application config)) = .error exc' :=
          hshap
        simp only [hexplainer]
        exact ⟨rfl, exc', rfl⟩
      | ok shapValues =>
        have hexplainer : b.api (.shapValues (buildFeatures application config)) =
          .ok shapValues := hshap
        rw [hshap, ok_bind] at hreasons
        simp only [hexplainer, hreasons]
        exact ⟨rfl, exc, rfl⟩

end Api

/-! ## The consumer -/

/-- The row that an exchange of the consumer has saved. -/
def savedByConsumer : Exchange Consumer.Op Consumer.Op.Reply → Option ScoringLog
  | ⟨.saveScoringLog _ row, .ok ()⟩ => some row
  | _ => none

/-- What is left of a message once it has been scored: the result is enqueued and the message
committed, and nothing is saved. -/
def publishes (message : Message) (result : Dict) : Consumer.Op → Prop
  | .saveScoringLog .. => False
  | .produce r => r.value = result
  | .commit m => m = message
  | _ => True

/-- What is left of one that could not be scored. -/
def rejects : Consumer.Op → Prop
  | .poll | .saveScoringLog .. | .produce _ => False
  | _ => True

/-- Scoring neither enqueues nor commits. -/
def scores : Consumer.Op → Prop
  | .produce _ | .commit _ => False
  | _ => True

section Consumer

variable (b : Backends) (rest : (op : Consumer.Op) → op.Reply) {validate : Validation}
  {payload : Dict} {application : CreditApplication}

/-- The scoring of the consumer. -/
theorem converse_consumer (offset : ℕ) (hvalid : validate (cleanPayload payload) = .ok application) :
    let c := (Consumer.scoreApplication validate offset payload).converse (b.consumer rest)
    c.1.filterMap savedByConsumer = (b.saved application).toOption.toList ∧
      c.2 = ((b.saved application).mapError .exception >>= fun row =>
        resultOf payload row <$> rest .utcNow) := by
  have hpredict (features : Features) :
    b.consumer rest (.predictProba features) = (b.model features).mapError .exception := rfl
  have hsave (row : ScoringLog) : b.consumer rest (.saveScoringLog offset row) =
    (b.database row).mapError .exception := rfl
  have hapi : b.consumer rest .loadFeatureConfig = b.config.mapError .exception := rfl
  have hnow : b.consumer rest .utcNow = rest .utcNow := rfl
  simp only [Consumer.scoreApplication, Consumer.ask, Consumer.ofExcept, converse_bind,
    converse_request, converse_ofExcept, hvalid, hapi, hpredict, hsave, hnow, Backends.saved,
    Backends.row]
  cases b.config with
  | error exc => exact ⟨rfl, rfl⟩
  | ok config =>
    simp only [ok_bind, Except.mapError]
    cases b.model (buildFeatures application config) with
    | error exc => exact ⟨rfl, rfl⟩
    | ok defaultProbability =>
      simp only [ok_bind]
      cases probabilityToScore defaultProbability with
      | error exc => exact ⟨rfl, rfl⟩
      | ok score =>
        cases hsaved : b.database (rowOf application defaultProbability score) with
        | error exc =>
          simp only [rowOf] at hsaved
          simp only [ok_bind, pure_bind, rowOf, hsaved]
          exact ⟨rfl, rfl⟩
        | ok _ =>
          simp only [rowOf] at hsaved
          simp only [ok_bind, pure_bind, rowOf, hsaved]
          cases rest .utcNow with
          | error exc => exact ⟨rfl, rfl⟩
          | ok now => exact ⟨rfl, rfl⟩

/-- One operation that is allowed. -/
theorem uses_ask {allowed : Consumer.Op → Prop} (op : Consumer.Op) (h : allowed op) :
    (Consumer.ask op).Uses allowed :=
  (uses_request h).bind fun reply => uses_ofExcept reply

/-- It neither enqueues nor commits. -/
theorem uses_consumer_scoreApplication (validate : Validation) (offset : ℕ) (payload : Dict) :
    (Consumer.scoreApplication validate offset payload).Uses scores := by
  refine (uses_ofExcept _).bind fun application => ?_
  refine (uses_ask .loadFeatureConfig trivial).bind fun config => ?_
  refine (uses_ask (.predictProba _) trivial).bind fun defaultProbability => ?_
  refine (uses_ofExcept _).bind fun score => ?_
  refine (uses_ask (.saveScoringLog ..) trivial).bind fun _ => ?_
  exact (uses_ask .utcNow trivial).bind fun scoredAt => trivial

/-- What follows the scoring. -/
def publish (message : Message) (result : Dict) : Consumer.Handler Unit := do
  let key ← Consumer.keyOf ((result.get? "application_id").getD .null)
  Consumer.ask (.produce { offset := message.offset, key, value := result })
  Consumer.serveReports
  Consumer.ask (.commit message)
  Consumer.ask (.print (.scored message.offset result))

/-- Preparing the key asks for its text. -/
theorem uses_keyOf {allowed : Consumer.Op → Prop} (hstr : ∀ value, allowed (.str value))
    (applicationId : Json) : (Consumer.keyOf applicationId).Uses allowed := by
  unfold Consumer.keyOf
  split
  · trivial
  · split
    · exact (uses_ask (.str applicationId) (hstr applicationId)).bind fun _ => trivial
    · trivial

/-- Serving the reports prints lines. -/
theorem uses_serveReports {allowed : Consumer.Op → Prop} (hserve : allowed .serveReports)
    (hprint : ∀ line, allowed (.print line)) : Consumer.serveReports.Uses allowed := by
  have hreport (report : Option String) : (Consumer.deliveryReport report).Uses allowed := by
    cases report with
    | none => exact uses_ask (.print .delivered) (hprint _)
    | some error => exact uses_ask (.print (.failedToDeliver error)) (hprint _)
  have hreports (reports : List (Option String)) :
      (reports.forM Consumer.deliveryReport).Uses allowed := by
    induction reports with
    | nil => trivial
    | cons report reports ih => exact (hreport report).bind fun _ => ih
  exact (uses_ask .serveReports hserve).bind hreports

/-- Publishing. -/
theorem uses_publish (message : Message) (result : Dict) :
    (publish message result).Uses (publishes message result) := by
  have hproduce (key : Option String) :
      publishes message result (.produce ⟨message.offset, key, result⟩) := rfl
  have hcommit : publishes message result (.commit message) := rfl
  refine (uses_keyOf (fun _ => trivial) _).bind fun key => ?_
  refine (uses_ask (.produce _) (hproduce key)).bind fun _ => ?_
  refine (uses_serveReports trivial fun _ => trivial).bind fun _ => ?_
  exact (uses_ask (.commit message) hcommit).bind fun _ => uses_ask (.print _) trivial

/-- The `except` branches. -/
theorem uses_rejected (message : Message) (line : Consumer.Line) :
    (do
      Consumer.ask (.print line)
      Consumer.ask (.commit message) : Consumer.Handler Unit).Uses rejects :=
  (uses_ask (.print line) trivial).bind fun _ => uses_ask (.commit message) trivial

/-- Nothing is saved where that is not allowed. -/
theorem filterMap_savedByConsumer {allowed : Consumer.Op → Prop}
    {log : List (Exchange Consumer.Op Consumer.Op.Reply)} (hlog : ∀ e ∈ log, allowed e.op)
    (hallowed : ∀ offset row, ¬allowed (.saveScoringLog offset row)) :
    log.filterMap savedByConsumer = [] := by
  refine List.filterMap_eq_nil_iff.mpr fun e he => ?_
  unfold savedByConsumer
  split
  · exact (hallowed _ _ (hlog _ he)).elim
  · rfl

/-- The `except` clauses. -/
def handled (message : Message) : Except Raised Unit → Consumer.Handler Unit
  | .ok () => return ()
  | .error .keyboardInterrupt => Program.raise .keyboardInterrupt
  | .error (.exception exc) =>
    if exc.isValueError then do
      Consumer.ask (.print (.invalidMessage message.offset exc))
      Consumer.ask (.commit message)
    else if Consumer.isValidationError exc then do
      Consumer.ask (.print (.invalidPayload message.offset exc))
      Consumer.ask (.commit message)
    else
      Consumer.ask (.print (.failedToProcess message.offset exc))

/-- They neither save nor enqueue. -/
theorem uses_handled (message : Message) (ended : Except Raised Unit) :
    (handled message ended).Uses rejects := by
  unfold handled
  split
  · trivial
  · trivial
  · split
    · exact uses_rejected message _
    · split
      · exact uses_rejected message _
      · exact uses_ask (.print _) trivial

/-- The conversation of `process_message` about an object: the scoring, what is left of the message
if it went well, and the `except` clauses. -/
theorem converse_processMessage {message : Message} (answer : (op : Consumer.Op) → op.Reply)
    (hpayload : payloadOf message.value = .ok payload) :
    let scored := (Consumer.scoreApplication validate message.offset payload).converse answer
    let log := ((Consumer.processMessage validate message).converse answer).1
    (∃ result ended, scored.2 = .ok result ∧ log = scored.1 ++
        ((publish message result).converse answer).1 ++
          ((handled message ended).converse answer).1) ∨
      ∃ exc, scored.2 = .error exc ∧
        log = scored.1 ++ ((handled message (.error exc)).converse answer).1 := by
  have hprocess : Consumer.processMessage validate message =
      (Consumer.scoreMessage validate message).attempt >>= handled message := rfl
  have hscore : Consumer.scoreMessage validate message =
      Consumer.scoreApplication validate message.offset payload >>= publish message := by
    unfold Consumer.scoreMessage
    rw [hpayload]
    rfl
  simp only [hprocess, hscore, converse_bind, converse_attempt]
  cases ((Consumer.scoreApplication validate message.offset payload).converse answer).2 with
  | error exc => exact .inr ⟨exc, rfl, rfl⟩
  | ok result => exact .inl ⟨result, _, rfl, rfl⟩

/-- A message whose scoring raises is committed as one that is invalid if what was raised is a
`ValueError`, and if the consumer comes to say so. -/
theorem commit_mem_handled_iff (answer : (op : Consumer.Op) → op.Reply) (message : Message)
    (exc : PyExc) :
    (∃ e ∈ ((handled message (.error (.exception exc))).converse answer).1,
        e.op = .commit message) ↔
      exc.isValueError ∧ answer (.print (.invalidMessage message.offset exc)) = .ok () := by
  have hvalidation : exc.isValueError = false → Consumer.isValidationError exc = false := by
    cases exc <;> simp [PyExc.isValueError, Consumer.isValidationError]
  cases hvalue : exc.isValueError with
  | false =>
    simp [handled, hvalue, hvalidation hvalue, Consumer.ask, converse_bind]
  | true =>
    simp only [handled, hvalue, if_true, Consumer.ask, converse_bind, converse_request,
      converse_ofExcept, true_and]
    cases answer (.print (.invalidMessage message.offset exc)) with
    | error raised => simp
    | ok reply =>
      simp

variable {message : Message}

/-- `process_message` saves the row of the application, if it comes to be saved. -/
theorem processMessage_saves (hpayload : payloadOf message.value = .ok payload)
    (hvalid : validate (cleanPayload payload) = .ok application) :
    ((Consumer.processMessage validate message).converse (b.consumer rest)).1.filterMap
      savedByConsumer = (b.saved application).toOption.toList := by
  obtain ⟨hrows, -⟩ := converse_consumer b rest message.offset hvalid
  have hhandled (ended : Except Raised Unit) := filterMap_savedByConsumer
    ((converses_converse (b.consumer rest) _).forall_of_uses (uses_handled message ended))
    fun _ _ h => h
  obtain ⟨result, ended, -, hlog⟩ | ⟨exc, -, hlog⟩ :=
    converse_processMessage (b.consumer rest) hpayload
  · have hpublish := filterMap_savedByConsumer ((converses_converse (b.consumer rest) _)
      |>.forall_of_uses (uses_publish message result)) fun _ _ h => h
    rw [hlog, List.filterMap_append, List.filterMap_append, hrows, hpublish, hhandled]
    simp
  · rw [hlog, List.filterMap_append, hrows, hhandled, List.append_nil]

/-- It enqueues nothing but results for this row. -/
theorem processMessage_produces (hpayload : payloadOf message.value = .ok payload)
    (hvalid : validate (cleanPayload payload) = .ok application)
    {e : Exchange Consumer.Op Consumer.Op.Reply} {r : Consumer.ScoringResult}
    (he : e ∈ ((Consumer.processMessage validate message).converse (b.consumer rest)).1)
    (hr : e.op = .produce r) :
    ∃ row scoredAt, b.saved application = .ok row ∧ r.value = resultOf payload row scoredAt := by
  obtain ⟨-, hended⟩ := converse_consumer b rest message.offset hvalid
  have hscores := (converses_converse (b.consumer rest) _).forall_of_uses
    (uses_consumer_scoreApplication validate message.offset payload)
  have hhandled (ended : Except Raised Unit) := (converses_converse (b.consumer rest) _)
    |>.forall_of_uses (uses_handled message ended)
  obtain ⟨result, ended, hscored, hlog⟩ | ⟨exc, -, hlog⟩ :=
    converse_processMessage (b.consumer rest) hpayload
  · obtain hscore | hpublish | hrejected : _ ∨ _ ∨ _ := by
      rwa [hlog, List.append_assoc, List.mem_append, List.mem_append] at he
    · exact (hr ▸ hscores e hscore).elim
    · have hvalue := (converses_converse (b.consumer rest) _).forall_of_uses
        (uses_publish message result) e hpublish
      rw [hr] at hvalue
      obtain rfl : r.value = result := hvalue
      rw [hended] at hscored
      cases hsaved : b.saved application with
      | error exc => rw [hsaved] at hscored; cases hscored
      | ok row =>
        cases hnow : rest .utcNow with
        | error raised => rw [hsaved, hnow] at hscored; cases hscored
        | ok scoredAt =>
          rw [hsaved, hnow] at hscored
          exact ⟨row, scoredAt, rfl, (Except.ok.inj hscored).symm⟩
    · exact (hr ▸ hhandled ended e hrejected).elim
  · obtain hscore | hrejected := List.mem_append.mp (hlog ▸ he)
    · exact (hr ▸ hscores e hscore).elim
    · exact (hr ▸ hhandled _ e hrejected).elim

/-- The key is prepared unless its text cannot be had. -/
theorem converse_keyOf (answer : (op : Consumer.Op) → op.Reply)
    (htext : ∀ value, ∃ text, answer (.str value) = .ok text) (applicationId : Json) :
    ∃ key, ((Consumer.keyOf applicationId).converse answer).2 = .ok key := by
  unfold Consumer.keyOf
  split
  · exact ⟨_, rfl⟩
  · split
    · obtain ⟨text, htext⟩ := htext applicationId
      refine ⟨some text, ?_⟩
      change ((Consumer.ask (.str applicationId) >>= fun text => pure (some text)).converse _).2 = _
      simp only [Consumer.ask, converse_bind, converse_request, converse_ofExcept, htext,
        converse_pure]
    · exact ⟨none, rfl⟩

/-- An exchange in which a result has been enqueued. -/
def enqueued (r : Consumer.ScoringResult) : Exchange Consumer.Op Consumer.Op.Reply :=
  ⟨.produce r, .ok ()⟩

/-- It does enqueue one, unless the clock or the text of the key cannot be had, or the producer
refuses it. -/
theorem processMessage_enqueues (hpayload : payloadOf message.value = .ok payload)
    (hvalid : validate (cleanPayload payload) = .ok application) {row : ScoringLog}
    (hsaved : b.saved application = .ok row) {scoredAt : Time} (hnow : rest .utcNow = .ok scoredAt)
    (htext : ∀ value, ∃ text, rest (.str value) = .ok text)
    (hproduce : ∀ r, rest (.produce r) = .ok ()) :
    ∃ r, enqueued r ∈
      ((Consumer.processMessage validate message).converse (b.consumer rest)).1 := by
  obtain ⟨-, hended⟩ := converse_consumer b rest message.offset hvalid
  rw [hsaved, hnow] at hended
  obtain ⟨result, ended, -, hlog⟩ | ⟨exc, hscored, -⟩ :=
    converse_processMessage (b.consumer rest) hpayload
  · obtain ⟨key, hkey⟩ := converse_keyOf (b.consumer rest) htext
      ((result.get? "application_id").getD .null)
    have hreply : b.consumer rest (.produce ⟨message.offset, key, result⟩) = .ok () := hproduce _
    refine ⟨⟨message.offset, key, result⟩, ?_⟩
    rw [hlog, List.mem_append, List.mem_append, enqueued, ← hreply]
    refine .inl (.inr ?_)
    rw [publish, converse_bind, hkey]
    exact List.mem_append_right _ List.mem_cons_self
  · cases hended.symm.trans hscored

/-- Where none is saved, it drops the message if what was raised is a `ValueError`. -/
theorem processMessage_drops_iff (hpayload : payloadOf message.value = .ok payload)
    (hvalid : validate (cleanPayload payload) = .ok application) {exc : PyExc}
    (hsaved : b.saved application = .error exc) :
    (∃ e ∈ ((Consumer.processMessage validate message).converse (b.consumer rest)).1,
        e.op = .commit message) ↔
      exc.isValueError ∧ rest (.print (.invalidMessage message.offset exc)) = .ok () := by
  obtain ⟨-, hended⟩ := converse_consumer b rest message.offset hvalid
  rw [hsaved] at hended
  have hscores := (converses_converse (b.consumer rest) _).forall_of_uses
    (uses_consumer_scoreApplication validate message.offset payload)
  obtain ⟨result, ended, hscored, -⟩ | ⟨raised, hscored, hlog⟩ :=
    converse_processMessage (b.consumer rest) hpayload
  · cases hended.symm.trans hscored
  · cases hended.symm.trans hscored
    refine Iff.trans ?_ (commit_mem_handled_iff (b.consumer rest) message exc)
    simp only [hlog, List.mem_append, or_and_right, exists_or]
    refine or_iff_right fun ⟨e, he, hop⟩ => ?_
    have h := hscores e he
    rwa [hop] at h

end Consumer

/-! ## Both -/

/-- Of the same valid application, asked of the same backends, the consumer publishes the row that
is saved, if one is and the producer takes its result. With reasons to give, the endpoint saves the
same row and responds with it; where it raises, the consumer enqueues nothing, and drops the message
if what is raised is a `ValueError`. Without reasons the endpoint saves nothing and raises, where
the consumer may score. -/
theorem services_agree (b : Backends) (rest : (op : Consumer.Op) → op.Reply)
    (validate : Validation) (message : Message) {payload : Dict} {application : CreditApplication}
    (hpayload : payloadOf message.value = .ok payload)
    (hvalid : validate (cleanPayload payload) = .ok application) :
    let endpoint := (ScoringApi.scoreApplication application).converse b.api
    let consumer := ((Consumer.processMessage validate message).converse (b.consumer rest)).1
    consumer.filterMap savedByConsumer = (b.saved application).toOption.toList ∧
      (∀ e ∈ consumer, ∀ r, e.op = .produce r → ∃ row scoredAt,
        b.saved application = .ok row ∧ r.value = resultOf payload row scoredAt) ∧
      (∀ row scoredAt, b.saved application = .ok row → rest .utcNow = .ok scoredAt →
        (∀ value, ∃ text, rest (.str value) = .ok text) → (∀ r, rest (.produce r) = .ok ()) →
        ∃ r, enqueued r ∈ consumer) ∧
      (∀ topReasons, b.reasons application = .ok topReasons →
        endpoint.1.filterMap savedByApi = consumer.filterMap savedByConsumer ∧
        (∀ response, endpoint.2 = .ok response → response.topReasons = topReasons ∧
          ∀ e ∈ consumer, ∀ r, e.op = .produce r → Carries r.value (responseRecord response)) ∧
        ∀ exc, endpoint.2 = .error exc → (∀ e ∈ consumer, ∀ r, e.op ≠ .produce r) ∧
          ((∃ e ∈ consumer, e.op = .commit message) ↔ exc.isValueError ∧
            rest (.print (.invalidMessage message.offset exc)) = .ok ())) ∧
      ∀ exc, b.reasons application = .error exc →
        endpoint.1.filterMap savedByApi = [] ∧ ∃ exc', endpoint.2 = .error exc' := by
  intro endpoint consumer
  have hconsumer : consumer.filterMap savedByConsumer = (b.saved application).toOption.toList :=
    processMessage_saves b rest hpayload hvalid
  have hproduced : ∀ e ∈ consumer, ∀ r, e.op = .produce r → ∃ row scoredAt,
      b.saved application = .ok row ∧ r.value = resultOf payload row scoredAt :=
    fun e he r hr => processMessage_produces b rest hpayload hvalid he hr
  refine ⟨hconsumer, hproduced, fun row scoredAt hsaved hnow htext hproduce =>
      processMessage_enqueues b rest hpayload hvalid hsaved hnow htext hproduce,
    fun topReasons hreasons => ?_, fun exc => converse_api_of_no_reasons b application⟩
  obtain ⟨hrows, hended⟩ := converse_api b application hreasons
  refine ⟨hrows.trans hconsumer.symm, fun response hresponse => ?_, fun exc hexc => ?_⟩
  · cases hsaved : b.saved application with
    | error exc => rw [hsaved] at hended; cases hended.symm.trans hresponse
    | ok row =>
      rw [hsaved] at hended
      cases hended.symm.trans hresponse
      refine ⟨rfl, fun e he r hr => ?_⟩
      obtain ⟨row', scoredAt, hrow, hvalue⟩ := hproduced e he r hr
      obtain rfl := Except.ok.inj (hsaved.symm.trans hrow)
      exact hvalue ▸ carries_resultOf payload row scoredAt topReasons
  · cases hsaved : b.saved application with
    | ok row => rw [hsaved] at hended; cases hended.symm.trans hexc
    | error exc' =>
      rw [hsaved] at hended
      cases hended.symm.trans hexc
      refine ⟨fun e he r hr => ?_, processMessage_drops_iff b rest hpayload hvalid hsaved⟩
      obtain ⟨row, _, hrow, -⟩ := hproduced e he r hr
      cases hsaved.symm.trans hrow

/-- Backends that answer. -/
def plainBackends : Backends where
  config := .ok ⟨36, 2500⟩
  model _ := .ok (.finite (29996 / 100000))
  explainer _ := .ok (.single [[]])
  database _ := .ok ()

/-- Nothing else fails either. -/
def untroubled : (op : Consumer.Op) → op.Reply
  | .poll => .ok .nothing
  | .loadFeatureConfig => .ok ⟨36, 2500⟩
  | .predictProba _ => .ok (.finite 0)
  | .utcNow => .ok 0
  | .str _ => .ok ""
  | .serveReports => .ok []
  | .subscribe | .saveScoringLog .. | .produce _ | .commit _ | .print _ | .close | .deliver .. =>
    .ok ()

/-- Then both publish the same record. -/
theorem services_agree_untroubled :
    let consumer := ((Consumer.processMessage (fun _ => .ok plainApplication)
      ⟨0, .json (.obj [])⟩).converse (plainBackends.consumer untroubled)).1
    ∃ response, ((ScoringApi.scoreApplication plainApplication).converse plainBackends.api).2 =
        .ok response ∧
      ∃ r, enqueued r ∈ consumer ∧ Carries r.value (responseRecord response) := by
  obtain ⟨-, -, henqueues, hexplained, -⟩ := services_agree plainBackends untroubled
    (fun _ => .ok plainApplication) ⟨0, .json (.obj [])⟩
    (show payloadOf (.json (.obj [])) = .ok [] from rfl) rfl
  obtain ⟨response, hresponse⟩ : ∃ response,
    ((ScoringApi.scoreApplication plainApplication).converse plainBackends.api).2 =
      .ok response := ⟨_, rfl⟩
  obtain ⟨-, hrecord, -⟩ := hexplained _ rfl
  obtain ⟨r, hr⟩ := henqueues _ 0 rfl rfl (fun _ => ⟨"", rfl⟩) fun _ => rfl
  exact ⟨response, hresponse, r, hr, (hrecord response hresponse).2 _ hr r rfl⟩

end CreditScoringMlops.Scoring
