import CreditScoringMlops.Consumer.ScoringConsumer
import CreditScoringMlops.Interaction.OffsetLog

/-!
# The consumer protocol

What a consumer process may do, as a monitor: it joins the group once, polls a message only when
it is done with the one before, and commits a message only after it has saved and enqueued its
score, or has rejected it. Seen from the group, a process takes, commits and abandons offsets.
-/

namespace CreditScoringMlops.Consumer

open Python Interaction Program Scoring

/-- How far the processing of a message has come. -/
inductive Stage where
  | working
  | logged
  | produced
  | rejected
  deriving DecidableEq

/-- How far a process has come. -/
inductive Phase where
  | new
  | ready
  | busy (offset : ℕ) (stage : Stage)
  | settled (offset : ℕ)

namespace ConsumerProtocol

/-- Operations of the loop that concern no message. -/
def isAside : Op → Bool
  | .serveReports => true
  | .close => true
  | .deliver _ _ => true
  | .print .delivered => true
  | .print (.failedToDeliver _) => true
  | .print (.consumerError _) => true
  | .print .stopping => true
  | _ => false

/-- Operations that prepare a score. -/
def isWork : Op → Bool
  | .loadFeatureConfig => true
  | .predictProba _ => true
  | .utcNow => true
  | .str _ => true
  | _ => false

/-- The line that rejects a message. -/
def isRejection (offset : ℕ) : Line → Bool
  | .invalidMessage o _ => o == offset
  | .invalidPayload o _ => o == offset
  | _ => false

/-- The replies that occur: nothing but an interrupt keeps a line from being printed. -/
def possible : (op : Op) → op.Reply → Prop
  | .print _, .error raised => raised = .keyboardInterrupt
  | _, _ => True

/-- What a process may do next. -/
inductive May : Phase → Op → Prop where
  | aside {s : Phase} {op : Op} (h : isAside op) : May s op
  | subscribe : May .new .subscribe
  | poll : May .ready .poll
  | pollNext {offset : ℕ} : May (.settled offset) .poll
  | work {offset : ℕ} {stage : Stage} {op : Op} (h : isWork op) : May (.busy offset stage) op
  | save {offset : ℕ} (row : ScoringLog) : May (.busy offset .working) (.saveScoringLog offset row)
  | produce (result : ScoringResult) : May (.busy result.offset .logged) (.produce result)
  | reject {offset : ℕ} {stage : Stage} {line : Line} (h : isRejection offset line) :
      May (.busy offset stage) (.print line)
  | commit {stage : Stage} (message : Message) (h : stage = .produced ∨ stage = .rejected) :
      May (.busy message.offset stage) (.commit message)
  | announce {offset : ℕ} (result : Dict) :
      May (.settled offset) (.print (.scored offset result))
  | fail {offset : ℕ} {stage : Stage} (exc : PyExc) :
      May (.busy offset stage) (.print (.failedToProcess offset exc))

/-- The phase after an operation; one that raises changes nothing. -/
def next (s : Phase) : (op : Op) → op.Reply → Phase
  | .subscribe, .ok _ => .ready
  | .poll, .ok (.message m) => .busy m.offset .working
  | .poll, .ok _ => .ready
  | .saveScoringLog offset _, .ok _ => .busy offset .logged
  | .produce result, .ok _ => .busy result.offset .produced
  | .print (.invalidMessage offset _), .ok _ => .busy offset .rejected
  | .print (.invalidPayload offset _), .ok _ => .busy offset .rejected
  | .print (.failedToProcess _ _), .ok _ => .ready
  | .commit message, .ok _ => .settled message.offset
  | _, _ => s

/-- An operation that raises changes no phase. -/
theorem next_error (s : Phase) (op : Op) (raised : Raised) : next s op (.error raised) = s := by
  cases op with
  | print line => cases line <;> rfl
  | _ => rfl

/-- The replies of the system are possible. -/
theorem exec_possible (i : ℕ) (op : Op) (env : Env) (w : World) :
    possible op (exec i op env w).1 := by
  cases op with
  | print line =>
    unfold exec
    split
    · rfl
    · trivial
  | _ => simp [possible]

end ConsumerProtocol

open ConsumerProtocol

/-- The protocol as a monitor. -/
def consumerProtocol : Monitor Op Op.Reply Phase where
  start := .new
  may := May
  possible := possible
  next := next

section Programs

variable {A : Type} {s : Phase} {E : Phase → Raised → Prop}

/-- One operation. -/
theorem obeys_ask (op : Op) {Q : Phase → op.Result → Prop} (hmay : May s op)
    (hok : ∀ a, Q (next s op (.ok a)) a) (herror : ∀ raised, E s raised) :
    Obeys consumerProtocol Q E s (ask op) := by
  rw [ask, obeys_bind]
  refine ⟨hmay, ?_⟩
  rintro (raised | a) -
  · change E (next s op (.error raised)) raised
    rw [next_error]
    exact herror raised
  · exact hok a

/-- Printing a line. -/
theorem obeys_print (line : Line) {Q : Phase → Unit → Prop} (hmay : May s (.print line))
    (hok : Q (next s (.print line) (.ok ())) ()) (herror : E s .keyboardInterrupt) :
    Obeys consumerProtocol Q E s (ask (.print line)) := by
  rw [ask, obeys_bind]
  refine ⟨hmay, ?_⟩
  rintro (raised | a) hpossible
  · obtain rfl : raised = .keyboardInterrupt := hpossible
    change E (next s (.print line) (.error .keyboardInterrupt)) .keyboardInterrupt
    rw [next_error]
    exact herror
  · exact hok

/-- Evaluating a result performs nothing. -/
theorem obeys_lift {Q : Phase → A → Prop} (result : Except PyExc A)
    (hok : ∀ a, result = .ok a → Q s a) (herror : ∀ exc, E s (.exception exc)) :
    Obeys consumerProtocol Q E s (ofExcept result) := by
  cases result with
  | ok a => exact hok a rfl
  | error exc => exact herror exc

/-- Printing the delivery reports concerns no message. -/
theorem obeys_deliveryReports (reports : List (Option String)) {Q : Phase → Unit → Prop}
    (hok : Q s ()) (herror : ∀ raised, E s raised) :
    Obeys consumerProtocol Q E s (reports.forM deliveryReport) := by
  induction reports with
  | nil => exact hok
  | cons report rest ih =>
    change Obeys _ _ _ _ (deliveryReport report >>= fun _ => rest.forM deliveryReport)
    rw [obeys_bind]
    cases report with
    | none => exact obeys_ask _ (.aside rfl) (fun _ => ih) herror
    | some error => exact obeys_ask _ (.aside rfl) (fun _ => ih) herror

/-- Serving the reports concerns no message. -/
theorem obeys_serveReports {Q : Phase → Unit → Prop} (hok : Q s ())
    (herror : ∀ raised, E s raised) : Obeys consumerProtocol Q E s serveReports := by
  unfold serveReports
  rw [obeys_bind]
  exact obeys_ask _ (.aside rfl) (fun reports => obeys_deliveryReports reports hok herror) herror

variable (validate : Validation) {offset : ℕ}

/-- The key of a result is prepared. -/
theorem obeys_keyOf {stage : Stage} (applicationId : Json) {Q : Phase → Option String → Prop}
    (hok : ∀ key, Q (.busy offset stage) key) (herror : ∀ raised, E (.busy offset stage) raised) :
    Obeys consumerProtocol Q E (.busy offset stage) (keyOf applicationId) := by
  have hother : ∀ value : Json, Obeys consumerProtocol Q E (.busy offset stage)
      (if value.truthy then some <$> ask (.str value) else return none) := by
    intro value
    split
    · rw [obeys_map]
      exact obeys_ask _ (.work rfl) (fun text => hok (some text)) herror
    · exact hok none
  unfold keyOf
  split
  · exact hok _
  · exact hother _

/-- Scoring an application saves it last. -/
theorem obeys_scoreApplication (payload : Dict) {Q : Phase → Dict → Prop}
    (hok : ∀ result, Q (.busy offset .logged) result)
    (herror : ∀ stage raised, E (.busy offset stage) raised) :
    Obeys consumerProtocol Q E (.busy offset .working)
      (scoreApplication validate offset payload) := by
  unfold scoreApplication
  rw [obeys_bind]
  refine obeys_lift _ (fun application _ => ?_) fun exc => herror _ _
  rw [obeys_bind]
  refine obeys_ask _ (.work rfl) (fun config => ?_) fun raised => herror _ _
  rw [obeys_bind]
  refine obeys_ask _ (.work rfl) (fun defaultProbability => ?_) fun raised => herror _ _
  rw [obeys_bind]
  refine obeys_lift _ (fun score _ => ?_) fun exc => herror _ _
  rw [obeys_bind]
  refine obeys_ask _ (.save _) (fun _ => ?_) fun raised => herror _ _
  rw [obeys_bind]
  exact obeys_ask _ (.work rfl) (fun scoredAt => hok _) fun raised => herror _ _

/-- Where the `try` block raises: the message is not settled, or the process is interrupted. -/
def Unsettled (offset : ℕ) (s : Phase) (raised : Raised) : Prop :=
  (∃ stage, s = .busy offset stage) ∨ raised = .keyboardInterrupt

/-- The `try` block of `process_message` settles the message. -/
theorem obeys_scoreMessage (message : Message) :
    Obeys consumerProtocol (fun s _ => s = .settled message.offset) (Unsettled message.offset)
      (.busy message.offset .working) (scoreMessage validate message) := by
  have hbusy : ∀ stage raised, Unsettled message.offset (.busy message.offset stage) raised :=
    fun stage _ => .inl ⟨stage, rfl⟩
  unfold scoreMessage
  rw [obeys_bind]
  refine obeys_lift _ (fun payload _ => ?_) fun exc => hbusy _ _
  rw [obeys_bind]
  refine obeys_scoreApplication validate payload (fun result => ?_) hbusy
  rw [obeys_bind]
  refine obeys_keyOf _ (fun key => ?_) (hbusy _)
  rw [obeys_bind]
  refine obeys_ask _ (.produce { offset := message.offset, key, value := result }) (fun _ => ?_)
    (hbusy _)
  rw [obeys_bind]
  refine obeys_serveReports ?_ (hbusy _)
  rw [obeys_bind]
  refine obeys_ask _ (.commit message (.inl rfl)) (fun _ => ?_) (hbusy _)
  exact obeys_print _ (.announce result) rfl (.inr rfl)

/-- Rejecting a message ends in its commit. -/
theorem obeys_reject (message : Message) {stage : Stage} {line : Line}
    (hline : isRejection message.offset line)
    (hnext : next (.busy message.offset stage) (.print line) (.ok ()) =
      .busy message.offset .rejected) :
    Obeys consumerProtocol (fun s _ => s = .settled message.offset) (fun _ _ => True)
      (.busy message.offset stage)
      (do
        ask (.print line)
        ask (.commit message) : Handler Unit) := by
  rw [obeys_bind]
  refine obeys_print _ (.reject hline) ?_ trivial
  rw [hnext]
  exact obeys_ask _ (.commit message (.inr rfl)) (fun _ => rfl) fun _ => trivial

/-- A process that may poll again. -/
def Phase.IsIdle (s : Phase) : Prop := s = .ready ∨ ∃ offset, s = .settled offset

/-- `process_message` is done with the message where it returns. -/
theorem obeys_processMessage (message : Message) :
    Obeys consumerProtocol (fun s _ => s.IsIdle) (fun _ _ => True)
      (.busy message.offset .working) (processMessage validate message) := by
  have hsettled : ∀ (s : Phase) (_ : Unit), s = .settled message.offset → s.IsIdle :=
    fun s _ h => .inr ⟨_, h⟩
  unfold processMessage
  rw [obeys_bind, obeys_attempt]
  refine (obeys_scoreMessage validate message).mono (fun s _ => hsettled s ()) fun s raised h => ?_
  cases raised with
  | keyboardInterrupt => trivial
  | exception exc =>
    obtain ⟨stage, rfl⟩ : ∃ stage, s = .busy message.offset stage := h.resolve_right (by simp)
    change Obeys _ _ _ _ (if _ then _ else if _ then _ else _)
    split
    · exact (obeys_reject message (by simp [isRejection]) rfl).mono hsettled fun _ _ h => h
    split
    · exact (obeys_reject message (by simp [isRejection]) rfl).mono hsettled fun _ _ h => h
    · exact obeys_print _ (.fail exc) (.inl rfl) trivial

/-- A process may poll again after each round of the loop. -/
theorem obeys_handlePolled (polled : Polled) :
    Obeys consumerProtocol (fun s _ => s.IsIdle) (fun _ _ => True)
      (next s .poll (.ok polled)) (handlePolled validate polled) := by
  cases polled with
  | nothing => exact obeys_serveReports (.inl rfl) fun _ => trivial
  | endOfPartition => exact .inl rfl
  | error message => exact obeys_print _ (.aside rfl) (.inl rfl) trivial
  | message m => exact obeys_processMessage validate m

/-- The loop of `main`. -/
theorem obeys_consume (polls : ℕ) (hs : s.IsIdle) :
    Obeys consumerProtocol (fun _ _ => True) (fun _ _ => True) s (consume validate polls) := by
  induction polls generalizing s with
  | zero => trivial
  | succ polls ih =>
    have hpoll : May s .poll := by
      obtain rfl | ⟨offset, rfl⟩ := hs
      · exact .poll
      · exact .pollNext
    unfold consume
    rw [obeys_bind]
    refine obeys_ask _ hpoll (fun polled => ?_) fun _ => trivial
    rw [obeys_bind]
    exact (obeys_handlePolled validate polled).mono (fun _ _ hs => ih hs) fun _ _ h => h

/-- `main`. -/
theorem obeys_main (polls : ℕ) :
    Obeys consumerProtocol (fun _ _ => True) (fun _ _ => True) .new (main validate polls) := by
  have hend : ∀ (s : Phase) (ended : Except Raised Unit),
      Obeys consumerProtocol (fun _ _ => True) (fun _ _ => True) s
        (do
          serveReports
          ask .close
          Program.ofExcept ended : Handler Unit) := by
    intro s ended
    rw [obeys_bind]
    refine obeys_serveReports ?_ fun _ => trivial
    rw [obeys_bind]
    refine obeys_ask _ (.aside rfl) (fun _ => ?_) fun _ => trivial
    exact obeys_ofExcept _ (fun _ _ => trivial) fun _ _ => trivial
  unfold main
  rw [obeys_bind]
  refine obeys_ask _ .subscribe (fun _ => ?_) fun _ => trivial
  rw [obeys_bind, obeys_attempt, obeys_bind, obeys_attempt]
  refine (obeys_consume validate polls (.inl rfl)).mono (fun s a _ => hend s (.ok a))
    fun s raised _ => ?_
  cases raised with
  | keyboardInterrupt =>
    exact obeys_print _ (.aside rfl) (hend _ _) (hend _ _)
  | exception exc => exact hend _ _

/-- Every request obeys the consumer protocol. -/
theorem obeys_serve (r : Request) :
    Obeys consumerProtocol (fun _ _ => True) (fun _ _ => True) consumerProtocol.start
      (serve validate r) := by
  cases r with
  | main polls => exact obeys_main validate polls
  | deliver index acknowledged => exact obeys_ask _ (.aside rfl) (fun _ => trivial) fun _ => trivial

end Programs

end CreditScoringMlops.Consumer
