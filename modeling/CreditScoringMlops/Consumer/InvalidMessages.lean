import CreditScoringMlops.Consumer.MessageLoss
import CreditScoringMlops.Interaction.Contract

/-!
# What is dropped as invalid

`process_message` tells invalid messages by the class of the exception that leaves its `try` block,
which spans the scoring as well. A message is dropped exactly if that exception is a value error.
This is what an invalid message raises, unless its value is missing or nested too deeply, and what
nothing else should raise; but the configuration, the model, the score, the database and the
producer can.
-/

namespace CreditScoringMlops.Consumer

open Python Interaction Machine Scoring ConsumerProtocol

/-- Operations that the processing of a message performs. -/
def isProcessing : Op → Bool
  | .subscribe => false
  | .poll => false
  | .close => false
  | .deliver _ _ => false
  | _ => true

/-- What an operation of the processing returns or raises, if the process still holds the
partition. -/
def Env.reply (env : Env) : (op : Op) → Except PyExc op.Result
  | .loadFeatureConfig => env.config
  | .predictProba _ => env.prediction
  | .saveScoringLog _ _ => env.database
  | .utcNow => .ok env.now
  | .str _ => .ok env.text
  | .produce _ => env.produce
  | .serveReports => env.reports
  | .commit _ => env.commit
  | .poll => .ok .nothing
  | .subscribe => .ok ()
  | .print _ => .ok ()
  | .close => .ok ()
  | .deliver _ _ => .ok ()

/-- What the first step of the scoring raises that fails: the configuration, the model, the score,
or the database. -/
def Env.scoring (env : Env) : Except PyExc Unit := do
  let _ ← env.config
  let defaultProbability ← env.prediction
  let _ ← probabilityToScore defaultProbability
  env.database

/-- What the processing of a valid application raises: the scoring, or the producer. -/
def Env.processing (env : Env) : Except PyExc Unit := do
  env.scoring
  env.produce
  let _ ← env.reports
  return ()

/-- The application of a payload, or what its validation raises. -/
def validated (validate : Validation) (payload : Dict) : Except PyExc CreditApplication :=
  (validate (cleanPayload payload)).mapError .validationError

/-- The application of a message, or what decoding and validation raise. -/
def applicationOf (validate : Validation) (value : MessageValue) :
    Except PyExc CreditApplication := do
  validated validate (← payloadOf value)

/-- How the `try` block of `process_message` ends, if the commit succeeds. -/
def verdict (validate : Validation) (env : Env) (value : MessageValue) : Except PyExc Unit := do
  let _ ← applicationOf validate value
  env.processing

/-- The surroundings of one message: every operation meets one environment, in which nothing is
interrupted and commits succeed, and others leave the partition to the process. -/
def undisturbed (i : ℕ) (env : Env) : Contract Op Op.Reply Env World where
  rely w w' := w.holder = some i → w'.holder = some i
  given e := e.env = env

/-- The last two operations are those of a branch for invalid messages: its line, and the commit of
the message. -/
def EndsInRejection (message : Message) (entries : List LogEntry) : Prop :=
  ∃ pre e f, entries = pre ++ [e, f] ∧ rejected message.offset e.op e.reply ∧
    entryEffect f = .commit message.offset

section Processing

variable {validate : Validation} {i : ℕ} {env : Env} {h : List LogEntry} {w : World}

/-- An operation that is not interrupted gives its reply, and leaves the partition to the
process. -/
theorem perform_eq {op : Op} (hop : isProcessing op) (hholder : w.holder = some i) :
    (perform i op env w).1 = (env.reply op).mapError .exception ∧
      (perform i op env w).2.holder = some i := by
  cases op with
  | commit message =>
    simp only [perform, execCommit, Env.reply]
    cases hcommit : env.commit with
    | error exc => exact ⟨rfl, hholder⟩
    | ok _ => simp only [hholder, if_true]; exact ⟨rfl, trivial⟩
  | saveScoringLog offset row =>
    simp only [perform, execSave, Env.reply]
    cases env.database with
    | error exc =>
      dsimp only
      split <;> exact ⟨rfl, hholder⟩
    | ok _ => exact ⟨rfl, hholder⟩
  | produce result =>
    simp only [perform, execProduce, Env.reply]
    cases env.produce <;> exact ⟨rfl, hholder⟩
  | loadFeatureConfig => exact ⟨rfl, hholder⟩
  | predictProba features => exact ⟨rfl, hholder⟩
  | utcNow => exact ⟨rfl, hholder⟩
  | str value => exact ⟨rfl, hholder⟩
  | serveReports => exact ⟨rfl, hholder⟩
  | print line => exact ⟨rfl, hholder⟩
  | _ => cases hop

variable {A : Type} {Q : List LogEntry → World → A → Prop}
  {E : List LogEntry → World → Raised → Prop}

/-- One operation of the processing. -/
theorem ensures_ask {op : Op} {Q : List LogEntry → World → op.Result → Prop}
    (hinterrupt : env.interrupt = false) (hop : isProcessing op) (hholder : w.holder = some i)
    (hok : ∀ a, env.reply op = .ok a → ∀ before after, after.holder = some i →
      Q (h ++ [⟨i, env, op, .ok a, before, after⟩]) after a)
    (herror : ∀ exc, env.reply op = .error exc → ∀ h' after, after.holder = some i →
      E h' after (.exception exc)) :
    (system validate).Ensures i (undisturbed i env) Q E h w (ask op) := by
  rw [ask, ensures_bind]
  refine ⟨trivial, fun before env' hrely hgiven => ?_⟩
  obtain rfl : env' = env := hgiven
  have hperform : (perform i op env' before).1 = (env'.reply op).mapError .exception ∧
      (perform i op env' before).2.holder = some i := perform_eq hop (hrely hholder)
  have hexec : (system validate).exec i op env' before =
      ((env'.reply op).mapError .exception, (perform i op env' before).2) := by
    rw [← hperform.1]
    exact if_neg (by simp [hinterrupt])
  simp only [Machine.entry, hexec]
  refine ⟨trivial, ?_⟩
  cases hcase : env'.reply op with
  | ok a => exact ⟨trivial, hok a hcase before _ hperform.2⟩
  | error exc => exact ⟨trivial, herror exc hcase _ _ hperform.2⟩

/-- Evaluating a result performs nothing. -/
theorem ensures_lift {result : Except PyExc A} (hok : ∀ a, result = .ok a → Q h w a)
    (herror : ∀ exc, result = .error exc → E h w (.exception exc)) :
    (system validate).Ensures i (undisturbed i env) Q E h w (ofExcept result) := by
  cases result with
  | ok a => exact ⟨trivial, hok a rfl⟩
  | error exc => exact ⟨trivial, herror exc rfl⟩

/-- Printing the delivery reports leaves the partition to the process. -/
theorem ensures_deliveryReports (hinterrupt : env.interrupt = false) (hholder : w.holder = some i)
    (reports : List (Option String)) :
    (system validate).Ensures i (undisturbed i env) (fun _ w' _ => w'.holder = some i)
      (fun _ _ _ => False) h w (reports.forM deliveryReport) := by
  induction reports generalizing h w with
  | nil => exact ⟨trivial, hholder⟩
  | cons report rest ih =>
    change (system validate).Ensures _ _ _ _ _ _
      (deliveryReport report >>= fun _ => rest.forM deliveryReport)
    rw [ensures_bind]
    cases report with
    | none =>
      exact ensures_ask hinterrupt rfl hholder (fun _ _ _ _ hholder => ih hholder)
        fun _ herror => by cases herror
    | some error =>
      exact ensures_ask hinterrupt rfl hholder (fun _ _ _ _ hholder => ih hholder)
        fun _ herror => by cases herror

/-- Preparing the key of a result leaves the partition to the process. -/
theorem ensures_keyOf (hinterrupt : env.interrupt = false) (hholder : w.holder = some i)
    (applicationId : Json) :
    (system validate).Ensures i (undisturbed i env) (fun _ w' _ => w'.holder = some i)
      (fun _ _ _ => False) h w (keyOf applicationId) := by
  have hother : ∀ value : Json, (system validate).Ensures i (undisturbed i env)
      (fun _ w' _ => w'.holder = some i) (fun _ _ _ => False) h w
      (if value.truthy then some <$> ask (.str value) else return none) := by
    intro value
    split
    · rw [ensures_map]
      exact ensures_ask hinterrupt rfl hholder (fun _ _ _ _ hholder => hholder)
        fun _ herror => by cases herror
    · exact ⟨trivial, hholder⟩
  unfold keyOf
  split
  · exact ⟨trivial, hholder⟩
  · exact hother _

/-- Scoring an application ends as the first of its steps that fails. -/
theorem ensures_scoreApplication (hinterrupt : env.interrupt = false) (hholder : w.holder = some i)
    (offset : ℕ) (payload : Dict) :
    (system validate).Ensures i (undisturbed i env)
      (fun _ w' _ => (validated validate payload >>= fun _ => env.scoring) = .ok () ∧
        w'.holder = some i)
      (fun _ w' raised => ∃ exc, raised = .exception exc ∧
        (validated validate payload >>= fun _ => env.scoring) = .error exc ∧ w'.holder = some i)
      h w (scoreApplication validate offset payload) := by
  unfold scoreApplication
  rw [ensures_bind]
  refine ensures_lift (fun application hvalid => ?_) fun exc hvalid =>
    ⟨exc, rfl, by rw [validated, hvalid]; rfl, hholder⟩
  rw [validated, hvalid, ok_bind, Env.scoring, ensures_bind]
  refine ensures_ask hinterrupt rfl hholder (fun config hconfig _ w₁ hholder => ?_)
    fun exc hconfig _ _ hholder => ⟨exc, rfl, bind_eq_error.mpr (.inl hconfig), hholder⟩
  rw [show env.config = .ok config from hconfig, ok_bind, ensures_bind]
  refine ensures_ask hinterrupt rfl hholder (fun defaultProbability hprediction _ w₂ hholder => ?_)
    fun exc hprediction _ _ hholder => ⟨exc, rfl, bind_eq_error.mpr (.inl hprediction), hholder⟩
  rw [show env.prediction = .ok defaultProbability from hprediction, ok_bind, ensures_bind]
  refine ensures_lift (fun score hscore => ?_) fun exc hscore =>
    ⟨exc, rfl, bind_eq_error.mpr (.inl hscore), hholder⟩
  rw [hscore, ok_bind, ensures_bind]
  refine ensures_ask hinterrupt rfl hholder (fun _ hdatabase _ w₃ hholder => ?_)
    fun exc hdatabase _ _ hholder => ⟨exc, rfl, hdatabase, hholder⟩
  rw [ensures_bind]
  exact ensures_ask hinterrupt rfl hholder
    (fun _ _ _ _ hholder => ⟨trivial, hdatabase, hholder⟩) fun _ herror => by cases herror

/-- The verdict, in the order of the `try` block. -/
theorem verdict_eq (value : MessageValue) :
    verdict validate env value = do
      let payload ← payloadOf value
      validated validate payload >>= fun _ => env.scoring
      env.produce
      let _ ← env.reports
      return () := by
  simp only [verdict, applicationOf, Env.processing, bind_assoc]

/-- The `try` block of `process_message` ends as the verdict says. -/
theorem ensures_scoreMessage (hinterrupt : env.interrupt = false) (hcommit : env.commit = .ok ())
    (hholder : w.holder = some i) (message : Message) :
    (system validate).Ensures i (undisturbed i env)
      (fun h' _ _ => verdict validate env message.value = .ok () ∧
        ∃ pre e line, h' = pre ++ [e] ∧ e.op = .print line)
      (fun _ w' raised => ∃ exc, raised = .exception exc ∧
        verdict validate env message.value = .error exc ∧ w'.holder = some i)
      h w (scoreMessage validate message) := by
  unfold scoreMessage
  rw [verdict_eq, ensures_bind]
  refine ensures_lift (fun payload hpayload => ?_) fun exc hpayload =>
    ⟨exc, rfl, bind_eq_error.mpr (.inl hpayload), hholder⟩
  rw [hpayload, ok_bind, ensures_bind]
  refine (ensures_scoreApplication hinterrupt hholder message.offset payload).mono
    (fun h₁ w₁ result _ hscored => ?_) fun _ _ raised _ hscored => ?_
  · obtain ⟨hscored, hholder⟩ := hscored
    rw [hscored, ok_bind, ensures_bind]
    refine (ensures_keyOf hinterrupt hholder _).mono (fun h₂ w₂ key _ hholder => ?_)
      fun _ _ _ _ hnone => hnone.elim
    rw [ensures_bind]
    refine ensures_ask hinterrupt rfl hholder (fun _ hproduce _ w₃ hholder => ?_)
      fun exc hproduce _ _ hholder => ⟨exc, rfl, bind_eq_error.mpr (.inl hproduce), hholder⟩
    rw [show env.produce = .ok () from hproduce, ok_bind, ensures_bind, serveReports, ensures_bind]
    refine ensures_ask hinterrupt rfl hholder (fun reports hreports _ w₄ hholder => ?_)
      fun exc hreports _ _ hholder => ⟨exc, rfl, bind_eq_error.mpr (.inl hreports), hholder⟩
    rw [show env.reports = .ok reports from hreports, ok_bind]
    refine (ensures_deliveryReports hinterrupt hholder reports).mono
      (fun h₅ w₅ _ _ hholder => ?_) fun _ _ _ _ hnone => hnone.elim
    rw [ensures_bind]
    refine ensures_ask hinterrupt rfl hholder (fun _ _ _ w₆ hholder => ?_)
      fun exc herror => absurd (hcommit.symm.trans herror) (by simp)
    exact ensures_ask hinterrupt rfl hholder
      (fun _ _ _ _ _ => ⟨rfl, _, _, _, rfl, rfl⟩) fun _ herror => by cases herror
  · obtain ⟨exc, rfl, hscored, hholder⟩ := hscored
    exact ⟨exc, rfl, bind_eq_error.mpr (.inl hscored), hholder⟩

/-- Entries that end with a line do not end in a rejection, whose last operation is a commit. -/
theorem not_endsInRejection {message : Message} {pre : List LogEntry} {e : LogEntry} {line : Line}
    (he : e.op = .print line) : ¬EndsInRejection message (pre ++ [e]) := by
  rintro ⟨pre', e', f, hsplit, -, heffect⟩
  have hlast : pre ++ [e] = (pre' ++ [e']) ++ [f] := hsplit.trans (by simp)
  obtain rfl : e = f := List.singleton_inj.mp (List.append_inj' hlast rfl).2
  obtain ⟨message', hop, -⟩ := effectOf_eq_commit heffect
  rw [he] at hop
  cases hop

/-- A branch for invalid messages prints its line and commits. -/
theorem ensures_reject (hinterrupt : env.interrupt = false) (hcommit : env.commit = .ok ())
    (hholder : w.holder = some i) {message : Message} {line : Line}
    (hline : isRejection message.offset line) :
    (system validate).Ensures i (undisturbed i env) (fun h' _ _ => EndsInRejection message h')
      (fun _ _ _ => False) h w
      (do
        ask (.print line)
        ask (.commit message) : Handler Unit) := by
  rw [ensures_bind]
  refine ensures_ask hinterrupt rfl hholder (fun _ _ _ w₁ hholder => ?_)
    fun _ herror => by cases herror
  refine ensures_ask hinterrupt rfl hholder (fun _ _ _ w₂ hholder => ?_)
    fun exc herror => absurd (hcommit.symm.trans herror) (by simp)
  exact ⟨h, _, _, List.append_assoc .., hline, rfl⟩

/-- `process_message` drops a message exactly if its `try` block raises a value error. -/
theorem ensures_processMessage (hinterrupt : env.interrupt = false) (hcommit : env.commit = .ok ())
    (hholder : w.holder = some i) (message : Message) :
    (system validate).Ensures i (undisturbed i env)
      (fun h' _ _ => EndsInRejection message h' ↔
        ∃ exc, verdict validate env message.value = .error exc ∧ exc.isValueError)
      (fun _ _ _ => False) h w (processMessage validate message) := by
  unfold processMessage
  rw [ensures_bind, ensures_attempt]
  refine (ensures_scoreMessage hinterrupt hcommit hholder message).mono
    (fun h₁ w₁ _ _ hend => ?_) fun h₁ w₁ raised _ hend => ?_
  · obtain ⟨hverdict, pre, e, line, rfl, he⟩ := hend
    exact ⟨trivial, iff_of_false (not_endsInRejection he) (by simp [hverdict])⟩
  · obtain ⟨exc, rfl, hverdict, hholder⟩ := hend
    change (system validate).Ensures _ _ _ _ _ _ (if _ then _ else if _ then _ else _)
    split
    next hvalue =>
      refine (ensures_reject hinterrupt hcommit hholder (by simp [isRejection])).mono
        (fun _ _ _ _ hrejected => ?_) fun _ _ _ _ hnone => hnone
      exact iff_of_true hrejected ⟨exc, hverdict, hvalue⟩
    next hvalue =>
      have hother : ¬isValidationError exc := by
        cases exc <;> simp_all [isValidationError, PyExc.isValueError]
      rw [if_neg hother]
      refine ensures_ask hinterrupt rfl hholder (fun _ _ _ _ _ => ?_)
        fun _ herror => by cases herror
      refine iff_of_false (not_endsInRejection rfl) ?_
      rintro ⟨exc', hverdict', hvalue'⟩
      obtain rfl := Except.error.inj (hverdict.symm.trans hverdict')
      exact hvalue hvalue'

end Processing

/-! ## What is dropped -/

/-- `process_message` commits a message through a branch for invalid messages. Every operation meets
one environment, which holds the outcomes of the configuration, the model, the database and the
producer, and others may change the world in between. -/
def DroppedAsInvalid (validate : Validation) (i : ℕ) (env : Env) (others : ℕ → World → World)
    (w : World) (message : Message) : Prop :=
  EndsInRejection message
    ((system validate).finish i { env := fun _ => env, others } 0 w
      (processMessage validate message)).entries

/-- A value that decoding and `json.loads` handle, or reject with a value error. -/
def MessageValue.isReadable : MessageValue → Bool
  | .null => false
  | .tooDeep _ => false
  | _ => true

section Dropped

variable {validate : Validation} {i : ℕ} {env : Env} {others : ℕ → World → World} {w : World}

/-- A message is dropped exactly if the `try` block raises a value error. -/
theorem droppedAsInvalid_iff_verdict (hinterrupt : env.interrupt = false)
    (hcommit : env.commit = .ok ()) (hholder : w.holder = some i)
    (hothers : ∀ k w, w.holder = some i → (others k w).holder = some i) (message : Message) :
    DroppedAsInvalid validate i env others w message ↔
      ∃ exc, verdict validate env message.value = .error exc ∧ exc.isValueError := by
  have hensures : (system validate).Ensures i (undisturbed i env) _ _ [] w
      (processMessage validate message) :=
    ensures_processMessage hinterrupt hcommit hholder message
  have hend := hensures.finish (s := { env := fun _ => env, others }) hothers (k := 0)
    fun e he => (env_of_mem_finish _ _ he).elim fun _ h => h
  unfold Ended.Meets at hend
  split at hend
  · exact hend
  · exact hend.elim

/-- A valid message is one whose application is found. -/
theorem isValid_iff (value : MessageValue) :
    value.isValid validate ↔ ∃ application, applicationOf validate value = .ok application := by
  unfold MessageValue.isValid applicationOf
  cases payloadOf value with
  | error exc => simp [bind, Except.bind]
  | ok payload =>
    rw [ok_bind, validated]
    cases hvalid : validate (cleanPayload payload) with
    | error message => simp [hvalid, Except.toBool, Except.mapError]
    | ok application => simp [hvalid, Except.toBool, Except.mapError]

/-- What decoding and validation raise is a value error, unless the value is not readable. -/
theorem isValueError_of_applicationOf {value : MessageValue} {exc : PyExc}
    (h : applicationOf validate value = .error exc) : exc.isValueError = value.isReadable := by
  rcases bind_eq_error.mp h with hpayload | ⟨payload, hpayload, hvalid⟩
  · cases value with
    | json json => cases json <;> cases hpayload <;> rfl
    | _ => cases hpayload; rfl
  · have hclass : exc.isValueError = true := by
      unfold validated at hvalid
      cases hcase : validate (cleanPayload payload) with
      | error message =>
        rw [hcase] at hvalid
        obtain rfl := Except.error.inj hvalid
        rfl
      | ok application =>
        rw [hcase] at hvalid
        cases hvalid
    cases value with
    | json json => rw [hclass]; rfl
    | _ => cases hpayload

/-- A value that decodes is readable. -/
theorem isReadable_of_applicationOf {value : MessageValue} {application : CreditApplication}
    (h : applicationOf validate value = .ok application) : value.isReadable := by
  obtain ⟨payload, hpayload, -⟩ := bind_eq_ok.mp h
  cases value with
  | json json => rfl
  | _ => cases hpayload

/-- Messages are dropped exactly if they are invalid, in exactly the circumstances in which the
value is readable and the processing raises no value error on a valid application. -/
theorem droppedAsInvalid_iff (hinterrupt : env.interrupt = false)
    (hcommit : env.commit = .ok ()) (hholder : w.holder = some i)
    (hothers : ∀ k w, w.holder = some i → (others k w).holder = some i) (message : Message) :
    (DroppedAsInvalid validate i env others w message ↔ ¬message.value.isValid validate) ↔
      message.value.isReadable ∧
        (message.value.isValid validate →
          ∀ exc, env.processing = .error exc → exc.isValueError = false) := by
  rw [droppedAsInvalid_iff_verdict hinterrupt hcommit hholder hothers, isValid_iff, verdict]
  cases happlication : applicationOf validate message.value with
  | error exc =>
    have hdropped : (∃ exc', (.error exc >>= fun _ : CreditApplication => env.processing) =
        .error exc' ∧ exc'.isValueError) ↔ message.value.isReadable := by
      rw [← isValueError_of_applicationOf happlication]
      exact ⟨fun ⟨_, h, hvalue⟩ => Except.error.inj h ▸ hvalue, fun hvalue => ⟨exc, rfl, hvalue⟩⟩
    rw [hdropped]
    simp
  | ok application =>
    rw [ok_bind]
    simp [isReadable_of_applicationOf happlication]

end Dropped

/-- A world in which process 0 holds the partition. -/
def held : World := { partition := [], holder := some 0 }

/-- A valid application that nothing keeps from being scored is not dropped. -/
theorem droppedAsInvalid_iff_sampleApplication :
    DroppedAsInvalid validateTyped 0 {} (fun _ w => w) held ⟨0, sampleApplication⟩ ↔
      ¬sampleApplication.isValid validateTyped :=
  (droppedAsInvalid_iff rfl rfl rfl (fun _ _ h => h) ⟨0, sampleApplication⟩).mpr
    ⟨rfl, fun _ exc h => by cases h⟩

/-- A message without a value is not dropped, although it is invalid, and a valid one is dropped if
the configuration is not JSON, or if the model returns `nan`. -/
theorem dropped_although_valid :
    ¬(DroppedAsInvalid validateTyped 0 {} (fun _ w => w) held ⟨0, .null⟩ ↔
      ¬MessageValue.null.isValid validateTyped) ∧
    ¬(DroppedAsInvalid validateTyped 0 { config := .error (.jsonDecodeError "Expecting value") }
      (fun _ w => w) held ⟨0, sampleApplication⟩ ↔ ¬sampleApplication.isValid validateTyped) ∧
    ¬(DroppedAsInvalid validateTyped 0 { prediction := .ok .nan } (fun _ w => w) held
      ⟨0, sampleApplication⟩ ↔ ¬sampleApplication.isValid validateTyped) := by
  have hvalid : sampleApplication.isValid validateTyped := rfl
  refine ⟨fun h => ?_, fun h => h.mp ?_ hvalid, fun h => h.mp ?_ hvalid⟩
  · obtain ⟨exc, hverdict, hvalue⟩ :=
      (droppedAsInvalid_iff_verdict rfl rfl rfl (fun _ _ h => h) _).mp (h.mpr (by decide))
    obtain rfl := Except.error.inj hverdict
    cases hvalue
  · exact (droppedAsInvalid_iff_verdict rfl rfl rfl (fun _ _ h => h) _).mpr ⟨_, rfl, rfl⟩
  · exact (droppedAsInvalid_iff_verdict rfl rfl rfl (fun _ _ h => h) _).mpr ⟨_, rfl, rfl⟩

end CreditScoringMlops.Consumer
