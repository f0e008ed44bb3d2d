import CreditScoringMlops.Consumer.Sessions

/-!
# When messages are lost

A message is settled once it has been committed by a process that has scored, logged and enqueued
it, or has rejected it. A process that has failed on a message in the transient branch goes on
with the next one, and the commit of a later message sets the offset of the group beyond the
failed one. No message is lost exactly in the runs in which no process commits anything after it
has failed on a message.
-/

namespace CreditScoringMlops.Consumer

open Python Interaction Scoring ConsumerProtocol

/-- The score of a message is in the log. -/
def saved (offset : ℕ) : (op : Op) → op.Reply → Prop
  | .saveScoringLog o _, .ok _ => o = offset
  | _, _ => False

/-- The result of a message is enqueued. -/
def enqueued (offset : ℕ) : (op : Op) → op.Reply → Prop
  | .produce result, .ok _ => result.offset = offset
  | _, _ => False

/-- A message is rejected as invalid. -/
def rejected (offset : ℕ) : (op : Op) → op.Reply → Prop
  | .print line, .ok _ => isRejection offset line
  | _, _ => False

/-- A process has done something in a trace. -/
def Done (trace : List LogEntry) (i : ℕ) (done : (op : Op) → op.Reply → Prop) : Prop :=
  ∃ e ∈ trace, e.caller = i ∧ done e.op e.reply

/-- A message has been committed by a process that has scored and logged it, and enqueued its
result, or that has rejected it as invalid. -/
def Settled (trace : List LogEntry) (offset : ℕ) : Prop :=
  ∃ pre e post, trace = pre ++ e :: post ∧ entryEffect e = .commit offset ∧
    (Done pre e.caller (saved offset) ∧ Done pre e.caller (enqueued offset) ∨
      Done pre e.caller (rejected offset))

/-- At every point of a run, every message that the committed offset lies beyond is settled. -/
def NoMessageLost (validate : Validation) (partition : List MessageValue)
    (events : List ConsumerEvent) : Prop :=
  ∀ earlier later, events = earlier ++ later →
    ∀ offset < (runFrom validate partition earlier).world.committed,
      Settled (runFrom validate partition earlier).trace offset

/-- No process commits a message after it has failed on one in the transient branch. -/
def NoCommitAfterFailure (trace : List LogEntry) : Prop :=
  ∀ f g, [f, g].Sublist trace → ∀ failed committed, entryEffect f = .abandon failed →
    entryEffect g = .commit committed → f.caller ≠ g.caller

section History

variable {s : Phase} {op : Op} {reply : op.Reply} {offset : ℕ} {stage : Stage}

/-- What brings the processing of a message to a stage. -/
def reaches (offset : ℕ) : Stage → (op : Op) → op.Reply → Prop
  | .working => fun op reply => effectOf op reply = .take offset
  | .logged => saved offset
  | .produced => enqueued offset
  | .rejected => rejected offset

/-- A stage is reached by its own operation. -/
theorem next_eq_busy (h : next s op reply = .busy offset stage) :
    s = .busy offset stage ∨ reaches offset stage op reply := by
  revert h
  fun_cases next s op reply <;> intro h
  all_goals first | exact .inl h | cases h
  all_goals right
  · rfl
  · rfl
  · rfl
  · simp [reaches, rejected, isRejection]
  · simp [reaches, rejected, isRejection]

/-- A commit is made at a stage that allows it. -/
theorem commit_of_effect (hmay : May s op) (h : effectOf op reply = .commit offset) :
    ∃ stage, s = .busy offset stage ∧ (stage = .produced ∨ stage = .rejected) := by
  obtain ⟨message, rfl, rfl⟩ := effectOf_eq_commit h
  cases hmay with
  | commit message hstage => exact ⟨_, rfl, hstage⟩
  | aside h => cases h
  | work h => cases h

/-- A message whose score is in the log. -/
def Phase.IsLogged (offset : ℕ) (s : Phase) : Prop :=
  s = .busy offset .logged ∨ s = .busy offset .produced

/-- A result is enqueued once its score is in the log. -/
theorem logged_of_enqueued (hmay : May s op) (h : enqueued offset op reply) :
    s = .busy offset .logged := by
  cases op with
  | produce result =>
    cases reply with
    | error raised => cases h
    | ok a =>
      obtain rfl : result.offset = offset := h
      cases hmay with
      | produce => rfl
      | aside h => cases h
      | work h => cases h
  | _ => simp [enqueued] at h

/-- A message whose result is enqueued has its score in the log. -/
theorem isLogged_of_next (hmay : May s op) (h : (next s op reply).IsLogged offset) :
    s.IsLogged offset ∨ saved offset op reply := by
  rcases h with h | h
  · exact (next_eq_busy h).imp_left .inl
  · exact .inl ((next_eq_busy h).elim .inr fun hreaches => .inl (logged_of_enqueued hmay hreaches))

variable {validate : Validation} {partition : List MessageValue} {trace : List LogEntry} {w : World}

/-- A process has done what its phase says. -/
theorem Legal.done_of_busy (h : Legal validate partition trace w) {i : ℕ}
    (hs : consumerProtocol.stateOf trace i = .busy offset stage) :
    Done trace i (reaches offset stage) :=
  Machine.Legal.history (C := (· = .busy offset stage)) i (by simp [consumerProtocol])
    (fun _ _ _ _ hnext => (next_eq_busy hnext).imp_right fun hreaches => ⟨rfl, hreaches⟩) h hs

/-- It has saved the score whose result it has enqueued. -/
theorem Legal.saved_of_produced (h : Legal validate partition trace w) {i : ℕ}
    (hs : consumerProtocol.stateOf trace i = .busy offset .produced) :
    Done trace i (saved offset) :=
  Machine.Legal.history (C := Phase.IsLogged offset) i
    (by simp [consumerProtocol, Phase.IsLogged])
    (fun _ _ _ hmay hnext => (isLogged_of_next hmay hnext).imp_right fun hsaved => ⟨rfl, hsaved⟩)
    h (.inr hs)

/-- A message is settled once a process has committed it. -/
theorem Legal.settled_iff (h : Legal validate partition trace w) :
    Settled trace offset ↔ ∃ i, Did Entry.caller entryEffect trace i (.commit offset) := by
  constructor
  · rintro ⟨pre, e, post, rfl, heffect, -⟩
    exact ⟨e.caller, e, by simp, rfl, heffect⟩
  · rintro ⟨i, e, he, rfl, heffect⟩
    obtain ⟨pre, post, rfl⟩ := List.append_of_mem he
    obtain ⟨hpre, hmay, -⟩ := Machine.Legal.split h rfl
    obtain ⟨stage, hs, hstage⟩ := commit_of_effect hmay heffect
    refine ⟨pre, e, post, rfl, heffect, ?_⟩
    rcases hstage with rfl | rfl
    · exact .inl ⟨Legal.saved_of_produced hpre hs, Legal.done_of_busy hpre hs⟩
    · exact .inr (Legal.done_of_busy hpre hs)

/-- No message is lost exactly in the runs in which no process commits a message after it has
failed on one. -/
theorem noMessageLost_iff (validate : Validation) (partition : List MessageValue)
    (events : List ConsumerEvent) :
    NoMessageLost validate partition events ↔
      NoCommitAfterFailure (runFrom validate partition events).trace := by
  have hlegal := legal_runFrom validate partition
  have hsettled : NoMessageLost validate partition events ↔ ∀ earlier later,
      events = earlier ++ later →
        ∀ offset < (runFrom validate partition earlier).world.committed,
          ∃ i, Did Entry.caller entryEffect (runFrom validate partition earlier).trace i
            (.commit offset) := by
    simp only [NoMessageLost, (hlegal _).settled_iff]
  have hmono : ∀ (trace : List LogEntry) (e : LogEntry) (o : ℕ),
      (∃ i, Did Entry.caller entryEffect trace i (.commit o)) →
        ∃ i, Did Entry.caller entryEffect (trace ++ [e]) i (.commit o) :=
    fun trace e o ⟨i, hdid⟩ => ⟨i, did_concat.mpr (.inl hdid)⟩
  exact (hsettled.trans (watermark_iff hmono events)).trans
    (hlegal events).offsetRun.commitsCovered_iff

end History

/-- A message with a valid application. -/
def sampleApplication : MessageValue :=
  .json (.obj [("application_id", .str "a1"), ("checking_account_status", .int 1),
    ("duration_months", .int 12), ("credit_history", .int 2), ("purpose", .int 3),
    ("credit_amount", .int 1000), ("savings_account", .int 1),
    ("employment_since", .int 3), ("installment_rate", .int 2), ("personal_status_sex", .int 2),
    ("other_debtors", .int 1), ("residence_since", .int 2), ("property", .int 1), ("age", .int 30),
    ("other_installment_plans", .int 3), ("housing", .int 2), ("existing_credits", .int 1),
    ("job", .int 2), ("people_liable", .int 1), ("telephone", .int 1), ("foreign_worker", .int 1)])

/-- A process fails on the first message because of the database, scores the second one, and dies.
Another one takes over. -/
def failureRun : List ConsumerEvent :=
  [.arrive (.main 3), .step 0 {}, .step 0 {}, .step 0 {}, .step 0 {},
    .step 0 { database := .error (.other "OperationalError") }, .step 0 {}, .step 0 {}, .step 0 {},
    .step 0 {}, .step 0 {}, .step 0 {}, .step 0 {}, .step 0 {}, .step 0 {}, .step 0 {}, .crash 0,
    .arrive (.main 1), .step 1 {}, .step 1 {}]

/-- The first message ends in the transient branch and is never settled, although it is valid, and
the process that takes over resumes behind it. -/
theorem message_lost_after_failure :
    let c := runFrom validateTyped [sampleApplication, sampleApplication] failureRun
    sampleApplication.isValid validateTyped ∧
      Did Entry.caller entryEffect c.trace 0 (.abandon 0) ∧ ¬Settled c.trace 0 ∧
        c.world.committed = 2 ∧ c.world.holder = some 1 ∧ c.world.resumed = 2 ∧
          ¬NoMessageLost validateTyped [sampleApplication, sampleApplication] failureRun := by
  have hlost : ¬Settled
      (runFrom validateTyped [sampleApplication, sampleApplication] failureRun).trace 0 := by
    rintro ⟨pre, e, post, htrace, heffect, -⟩
    have hmem : OffsetEffect.commit 0 ∈
        (runFrom validateTyped [sampleApplication, sampleApplication] failureRun).trace.map
          entryEffect := List.mem_map.mpr ⟨e, htrace ▸ by simp, heffect⟩
    have heffects : (runFrom validateTyped [sampleApplication, sampleApplication]
        failureRun).trace.map entryEffect = [.join, .take 0, .none, .none, .none, .abandon 0,
          .take 1, .none, .none, .none, .none, .none, .none, .commit 1, .none, .join, .none] := rfl
    simp [heffects] at hmem
  refine ⟨rfl, ⟨_, List.mem_of_getElem? (i := 5) rfl, rfl, rfl⟩, hlost, rfl, rfl, rfl, fun h => ?_⟩
  exact hlost (h failureRun [] (by simp) 0 (by decide))

end CreditScoringMlops.Consumer
