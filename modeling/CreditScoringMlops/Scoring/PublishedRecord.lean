import CreditScoringMlops.Consumer.ScoringConsumer
import CreditScoringMlops.Interaction.Conversation
import CreditScoringMlops.Scoring.ScoreScale
import CreditScoringMlops.Scoring.ScoringApi

/-!
# Published records

Both services assess the exact probability and publish it rounded. So a record agrees with itself
exactly if rounding has not moved the probability across a threshold, or across a step of the score.
-/

namespace CreditScoringMlops.Scoring

open Python Interaction Program Data

/-- What both services publish about a scoring. -/
structure ScoringRecord where
  defaultProbability : PyFloat
  assessment : Assessment

/-- Assessing the published probability gives the published assessment. -/
def ScoringRecord.SelfConsistent (r : ScoringRecord) : Prop :=
  assess r.defaultProbability = .ok r.assessment

/-- A record has the rounded probability and the assessment of the exact one. -/
structure IsPublished (p : ℚ) (r : ScoringRecord) : Prop where
  probability : r.defaultProbability = roundToFour (.finite p)
  assessed : assess (.finite p) = .ok r.assessment

/-! ## When a record agrees with itself -/

/-- Where an assessment changes: the thresholds, and the steps of the score. -/
def IsCutPoint (c : ℚ) : Prop :=
  c ∈ riskThresholds ∨ c ∈ decisionThresholds ∨ ∃ n : ℤ, c = n / 550

/-- Rounding does not leave the unit interval. -/
theorem rounded_mem {p : ℚ} (hp : p ∈ Set.Icc 0 1) : rounded p ∈ Set.Icc 0 1 := by
  have hzero : rounded 0 = 0 := by norm_num [rounded, halfEven]
  have hone : rounded 1 = 1 := by
    norm_num [rounded, halfEven]
  exact ⟨hzero ▸ rounded_mono hp.1, hone ▸ rounded_mono hp.2⟩

/-- The score is the same if no step of it lies between the probabilities. -/
theorem score_eq_iff (p q : ℚ) :
    (assessment p).score = (assessment q).score ↔ ∀ n : ℤ, ¬Separates (n / 550 : ℚ) p q := by
  have hpos : (0 : ℚ) < 550 := by norm_num
  simp only [separates_div_iff hpos]
  rw [← floor_eq_floor_iff]
  exact sub_right_inj

/-- The risk level is the same if no threshold does. -/
theorem riskLevel_eq_iff (p q : ℚ) :
    (assessment p).riskLevel = (assessment q).riskLevel ↔
      ∀ c ∈ riskThresholds, ¬Separates c p q := by
  rw [← grade_eq_iff, ← severity_getRiskLevel, ← severity_getRiskLevel]
  exact RiskLevel.severity_injective.eq_iff.symm

/-- So is the decision. -/
theorem decision_eq_iff (p q : ℚ) :
    (assessment p).decision = (assessment q).decision ↔
      ∀ c ∈ decisionThresholds, ¬Separates c p q := by
  rw [← grade_eq_iff, ← severity_getDecision, ← severity_getDecision]
  exact Decision.severity_injective.eq_iff.symm

/-- Probabilities are assessed alike if no cut point separates them. -/
theorem assessment_eq_iff (p q : ℚ) :
    assessment p = assessment q ↔ ∀ c, IsCutPoint c → ¬Separates c p q := by
  have hparts : assessment p = assessment q ↔
      (assessment p).score = (assessment q).score ∧
        (assessment p).riskLevel = (assessment q).riskLevel ∧
        (assessment p).decision = (assessment q).decision := by
    rw [Assessment.ext_iff]
  rw [hparts, score_eq_iff, riskLevel_eq_iff, decision_eq_iff]
  constructor
  · rintro ⟨hscore, hrisk, hdecision⟩ c (hc | hc | ⟨n, rfl⟩)
    · exact hrisk c hc
    · exact hdecision c hc
    · exact hscore n
  · intro h
    exact ⟨fun n => h _ (.inr (.inr ⟨n, rfl⟩)), fun c hc => h c (.inl hc),
      fun c hc => h c (.inr (.inl hc))⟩

/-- A published record agrees with itself if rounding has not moved the probability across a cut
point. -/
theorem IsPublished.selfConsistent_iff {p : ℚ} (hp : p ∈ Set.Icc 0 1) {r : ScoringRecord}
    (hr : IsPublished p r) :
    r.SelfConsistent ↔ ∀ c, IsCutPoint c → ¬Separates c p (rounded p) := by
  have hassessed : assessment p = r.assessment := by
    have := hr.assessed
    rw [assess_finite hp] at this
    exact Except.ok.inj this
  rw [ScoringRecord.SelfConsistent, hr.probability, roundToFour_finite,
    assess_finite (rounded_mem hp), Except.ok.injEq, ← hassessed, eq_comm, assessment_eq_iff]

/-- What is derived from the exact probability makes a record of it. -/
theorem isPublished_of_probabilityToScore {p : ℚ} {score : ℤ}
    (h : probabilityToScore (.finite p) = .ok score) :
    IsPublished p ⟨roundToFour (.finite p),
      ⟨score, getRiskLevel (.finite p), getDecision (.finite p)⟩⟩ := by
  refine ⟨rfl, ?_⟩
  rw [assess, h]
  rfl

/-! ## The services -/

section Asking

variable {Op Exc : Type} {Result : Op → Type}

/-- One operation under a monitor without states, wherever it may raise. -/
theorem obeys_ask_of_may {m : Monitor Op (fun op => Except Exc (Result op)) Unit} {op : Op}
    {Q : Unit → Result op → Prop} (hmay : m.may () op)
    (hok : ∀ a, m.possible op (.ok a) → Q () a) :
    Obeys m Q (fun _ _ => True) () (do Program.ofExcept (← Program.request op)) := by
  rw [obeys_bind]
  refine ⟨hmay, ?_⟩
  rintro (exc | a) hpossible
  · trivial
  · exact hok a hpossible

/-- The first operation of a sequence. -/
theorem obeys_ask_bind {A : Type} {m : Monitor Op (fun op => Except Exc (Result op)) Unit} {op : Op}
    {Q : Unit → A → Prop} {f : Result op → Program Op (fun op => Except Exc (Result op)) Exc A}
    (hmay : m.may () op)
    (hok : ∀ a, m.possible op (.ok a) → Obeys m Q (fun _ _ => True) () (f a)) :
    Obeys m Q (fun _ _ => True) () ((do Program.ofExcept (← Program.request op)) >>= f) := by
  rw [obeys_bind]
  exact obeys_ask_of_may hmay hok

end Asking

/-! ### The endpoint -/

/-- The record in a response. -/
def responseRecord (response : ScoringApi.ScoringResponse) : ScoringRecord where
  defaultProbability := response.defaultProbability
  assessment := ⟨response.score, response.riskLevel, response.decision⟩

/-- The model answers `p`, if it does not raise. -/
def apiPredicts (p : ℚ) : (op : ScoringApi.Op) → op.Reply → Prop
  | .predictProba _, reply => ∀ x, reply = .ok x → x = .finite p
  | _, _ => True

/-- Everything is permitted while the model answers `p`. -/
def apiMonitor (p : ℚ) : Monitor ScoringApi.Op ScoringApi.Op.Reply Unit where
  start := ()
  may _ _ := True
  possible := apiPredicts p
  next _ _ _ := ()

/-- The endpoint responds with a record of the probability. -/
theorem obeys_apiMonitor (p : ℚ) (application : CreditApplication) :
    Obeys (apiMonitor p) (fun _ response => IsPublished p (responseRecord response))
      (fun _ _ => True) () (ScoringApi.scoreApplication application) := by
  unfold ScoringApi.scoreApplication
  refine obeys_ask_bind trivial fun config _ => ?_
  refine obeys_ask_bind trivial fun defaultProbability hpredict => ?_
  obtain rfl : defaultProbability = .finite p := hpredict _ rfl
  refine obeys_ask_bind trivial fun shapValues _ => ?_
  rw [obeys_bind]
  refine obeys_ofExcept _ (fun topReasons _ => ?_) fun _ _ => trivial
  rw [obeys_bind]
  refine obeys_ofExcept _ (fun score hscore => ?_) fun _ _ => trivial
  exact obeys_ask_bind trivial fun _ _ => isPublished_of_probabilityToScore hscore

/-- So does every conversation in which the model answers `p`. -/
theorem isPublished_of_converses {p : ℚ} {application : CreditApplication}
    {log : List (Exchange ScoringApi.Op ScoringApi.Op.Reply)}
    {response : ScoringApi.ScoringResponse}
    (hlog : (ScoringApi.scoreApplication application).Converses log (.ok response))
    (hpredicts : ∀ e ∈ log, apiPredicts p e.op e.reply) :
    IsPublished p (responseRecord response) := by
  obtain ⟨_, _, ⟨⟩, h⟩ | ⟨_, _, ⟨⟩, _⟩ :=
    hlog.end_of_obeys (obeys_apiMonitor p application) hpredicts
  exact h

/-! ### The consumer -/

/-- The record in a result. -/
structure Carries (result : Dict) (r : ScoringRecord) : Prop where
  probability : result.get? "default_probability" = some (.float r.defaultProbability)
  score : result.get? "score" = some (.int r.assessment.score)
  riskLevel : result.get? "risk_level" = some (.str r.assessment.riskLevel.value)
  decision : result.get? "decision" = some (.str r.assessment.decision.value)

/-- A result carries a record of the probability. -/
def CarriesPublished (p : ℚ) (result : Dict) : Prop := ∃ r, Carries result r ∧ IsPublished p r

/-- The model answers `p`, if it does not raise. -/
def consumerPredicts (p : ℚ) : (op : Consumer.Op) → op.Reply → Prop
  | .predictProba _, reply => ∀ x, reply = .ok x → x = .finite p
  | _, _ => True

/-- While the model answers `p`, only results that carry a record of it are enqueued. -/
def consumerMonitor (p : ℚ) : Monitor Consumer.Op Consumer.Op.Reply Unit where
  start := ()
  may _ op := ∀ result, op = .produce result → CarriesPublished p result.value
  possible := consumerPredicts p
  next _ _ _ := ()

section Consumer

open Consumer (Validation Message)

variable {p : ℚ}

/-- Other operations are permitted at all times. -/
theorem consumerMonitor_may {op : Consumer.Op} (h : ∀ result, op ≠ .produce result) :
    (consumerMonitor p).may () op := fun result heq => absurd heq (h result)

/-- The scoring of an application makes a record of the probability. -/
theorem obeys_consumer_scoreApplication (validate : Validation) (offset : ℕ) (payload : Dict) :
    Obeys (consumerMonitor p) (fun _ result => CarriesPublished p result) (fun _ _ => True) ()
      (Consumer.scoreApplication validate offset payload) := by
  unfold Consumer.scoreApplication
  rw [obeys_bind]
  refine obeys_ofExcept _ (fun application _ => ?_) fun _ _ => trivial
  refine obeys_ask_bind (consumerMonitor_may nofun) fun config _ => ?_
  refine obeys_ask_bind (consumerMonitor_may nofun) fun defaultProbability hpredict => ?_
  obtain rfl : defaultProbability = .finite p := hpredict _ rfl
  rw [obeys_bind]
  refine obeys_ofExcept _ (fun score hscore => ?_) fun _ _ => trivial
  refine obeys_ask_bind (consumerMonitor_may nofun) fun _ _ => ?_
  refine obeys_ask_bind (consumerMonitor_may nofun) fun scoredAt _ => ?_
  have hscore : probabilityToScore (.finite p) = .ok score := by
    cases hcase : probabilityToScore (.finite p) with
    | error exc => rw [hcase] at hscore; cases hscore
    | ok score' => rw [hcase] at hscore; cases hscore; rfl
  exact ⟨_, ⟨rfl, rfl, rfl, rfl⟩, isPublished_of_probabilityToScore hscore⟩

/-- Preparing the key enqueues nothing. -/
theorem obeys_consumer_keyOf (applicationId : Json) {Q : Unit → Option String → Prop}
    (hok : ∀ key, Q () key) :
    Obeys (consumerMonitor p) Q (fun _ _ => True) () (Consumer.keyOf applicationId) := by
  have hother : ∀ value : Json, Obeys (consumerMonitor p) Q (fun _ _ => True) ()
      (if value.truthy then some <$> Consumer.ask (.str value) else return none) := by
    intro value
    split
    · rw [obeys_map]
      exact obeys_ask_of_may (consumerMonitor_may nofun) fun text _ => hok (some text)
    · exact hok none
  unfold Consumer.keyOf
  split
  · exact hok _
  · exact hother _

/-- Serving the reports enqueues nothing. -/
theorem obeys_consumer_serveReports {Q : Unit → Unit → Prop} (hok : Q () ()) :
    Obeys (consumerMonitor p) Q (fun _ _ => True) () Consumer.serveReports := by
  have hreports : ∀ reports : List (Option String), Obeys (consumerMonitor p) Q (fun _ _ => True) ()
      (reports.forM Consumer.deliveryReport) := by
    intro reports
    induction reports with
    | nil => exact hok
    | cons report rest ih =>
      change Obeys _ _ _ _ (Consumer.deliveryReport report >>= fun _ => rest.forM _)
      rw [obeys_bind]
      cases report with
      | none => exact obeys_ask_of_may (consumerMonitor_may nofun) fun _ _ => ih
      | some error => exact obeys_ask_of_may (consumerMonitor_may nofun) fun _ _ => ih
  unfold Consumer.serveReports
  exact obeys_ask_bind (consumerMonitor_may nofun) fun reports _ => hreports reports

/-- The `try` block of `process_message` enqueues a record of the probability. -/
theorem obeys_consumer_scoreMessage (validate : Validation) (message : Message) :
    Obeys (consumerMonitor p) (fun _ _ => True) (fun _ _ => True) ()
      (Consumer.scoreMessage validate message) := by
  unfold Consumer.scoreMessage
  rw [obeys_bind]
  refine obeys_ofExcept _ (fun payload _ => ?_) fun _ _ => trivial
  rw [obeys_bind]
  refine (obeys_consumer_scoreApplication validate message.offset payload).mono
    (fun _ result hresult => ?_) fun _ _ h => h
  rw [obeys_bind]
  refine obeys_consumer_keyOf _ fun key => ?_
  refine obeys_ask_bind ?_ fun _ _ => ?_
  · rintro _ ⟨⟩
    exact hresult
  rw [obeys_bind]
  refine obeys_consumer_serveReports ?_
  exact obeys_ask_bind (consumerMonitor_may nofun) fun _ _ =>
    obeys_ask_of_may (consumerMonitor_may nofun) fun _ _ => trivial

/-- So does `process_message`, which enqueues nothing else. -/
theorem obeys_consumer_processMessage (validate : Validation) (message : Message) :
    Obeys (consumerMonitor p) (fun _ _ => True) (fun _ _ => True) ()
      (Consumer.processMessage validate message) := by
  have hrejected : ∀ line, Obeys (consumerMonitor p) (fun _ _ => True) (fun _ _ => True) ()
      (do
        Consumer.ask (.print line)
        Consumer.ask (.commit message) : Consumer.Handler Unit) := by
    intro line
    exact obeys_ask_bind (consumerMonitor_may nofun) fun _ _ =>
      obeys_ask_of_may (consumerMonitor_may nofun) fun _ _ => trivial
  unfold Consumer.processMessage
  rw [obeys_bind, obeys_attempt]
  refine (obeys_consumer_scoreMessage validate message).mono (fun _ _ _ => trivial) ?_
  rintro s (exc | _) -
  · change Obeys _ _ _ _ (if _ then _ else if _ then _ else _)
    split
    · exact hrejected _
    · split
      · exact hrejected _
      · exact obeys_ask_of_may (consumerMonitor_may nofun) fun _ _ => trivial
  · trivial

end Consumer

/-! ## What both publish -/

/-- Both services publish the assessment of the exact probability next to the rounded one, and their
records agree with themselves exactly if rounding has not moved the probability across a cut
point. -/
theorem published_selfConsistent_iff {p : ℚ} (hp : p ∈ Set.Icc 0 1) :
    (∀ application log response,
      (ScoringApi.scoreApplication application).Converses log (.ok response) →
      (∀ e ∈ log, apiPredicts p e.op e.reply) → IsPublished p (responseRecord response)) ∧
    (∀ validate message log ending,
      (Consumer.processMessage validate message).Converses log ending →
      (∀ e ∈ log, consumerPredicts p e.op e.reply) →
      ∀ e ∈ log, ∀ result, e.op = .produce result → CarriesPublished p result.value) ∧
    ∀ r, IsPublished p r →
      (r.SelfConsistent ↔ ∀ c, IsCutPoint c → ¬Separates c p (rounded p)) := by
  refine ⟨fun application log response => isPublished_of_converses,
    fun validate message log ending hlog hpredicts => ?_, fun r hr => hr.selfConsistent_iff hp⟩
  exact hlog.forall_may (obeys_consumer_processMessage validate message) hpredicts

/-- An application. -/
def plainApplication : CreditApplication where
  checkingAccountStatus := ⟨1, by decide⟩
  durationMonths := ⟨12, by decide⟩
  creditHistory := ⟨2, by decide⟩
  purpose := ⟨3, by decide⟩
  creditAmount := ⟨.finite 1000, by decide⟩
  savingsAccount := ⟨1, by decide⟩
  employmentSince := ⟨3, by decide⟩
  installmentRate := ⟨2, by decide⟩
  personalStatusSex := ⟨2, by decide⟩
  otherDebtors := ⟨1, by decide⟩
  residenceSince := ⟨2, by decide⟩
  property := ⟨1, by decide⟩
  age := ⟨30, by decide⟩
  otherInstallmentPlans := ⟨3, by decide⟩
  housing := ⟨2, by decide⟩
  existingCredits := ⟨1, by decide⟩
  job := ⟨2, by decide⟩
  peopleLiable := ⟨1, by decide⟩
  telephone := ⟨1, by decide⟩
  foreignWorker := ⟨1, by decide⟩

/-- Surroundings in which the model answers 0.29996. -/
def justBelow : (op : ScoringApi.Op) → op.Reply
  | .loadFeatureConfig => .ok ⟨36, 2500⟩
  | .predictProba _ => .ok (.finite (29996 / 100000))
  | .shapValues _ => .ok (.single [[]])
  | .saveScoringLog _ => .ok ()

/-- In them the endpoint responds. -/
theorem exists_response_justBelow (application : CreditApplication) : ∃ response,
    ((ScoringApi.scoreApplication application).converse justBelow).2 = .ok response := ⟨_, rfl⟩

/-- They predict it. -/
theorem apiPredicts_justBelow (application : CreditApplication) :
    ∀ e ∈ ((ScoringApi.scoreApplication application).converse justBelow).1,
      apiPredicts (29996 / 100000) e.op e.reply := by
  intro e he
  have hreply := reply_of_mem_converse he
  obtain ⟨op, reply⟩ := e
  obtain rfl : reply = justBelow op := hreply
  cases op with
  | predictProba features => exact fun x hx => (Except.ok.inj hx).symm
  | _ => trivial

/-- It is rounded up to a threshold. -/
theorem separates_justBelow :
    Separates (3 / 10 : ℚ) (29996 / 100000) (rounded (29996 / 100000)) := by
  refine .inl ?_
  norm_num [rounded, halfEven]

/-- What the endpoint publishes there does not agree with itself. -/
theorem published_selfConsistent_iff_below_threshold : ∃ response,
    ((ScoringApi.scoreApplication plainApplication).converse justBelow).2 = .ok response ∧
      IsPublished (29996 / 100000) (responseRecord response) ∧
        ¬(responseRecord response).SelfConsistent := by
  obtain ⟨response, hresponse⟩ := exists_response_justBelow plainApplication
  have hlog := converses_converse justBelow (ScoringApi.scoreApplication plainApplication)
  rw [hresponse] at hlog
  obtain ⟨hapi, -, hiff⟩ :=
    published_selfConsistent_iff (by constructor <;> norm_num : (29996 / 100000 : ℚ) ∈ Set.Icc 0 1)
  have hpublished := hapi _ _ _ hlog (apiPredicts_justBelow plainApplication)
  exact ⟨response, hresponse, hpublished, fun hself =>
    (hiff _ hpublished).mp hself _ (.inr (.inl (by simp [decisionThresholds]))) separates_justBelow⟩

/-- The endpoint approves an application with a probability of 0.29996 and publishes 0.3, which is
not approved. -/
theorem published_not_selfConsistent :
    ¬∀ p ∈ Set.Icc (0 : ℚ) 1,
      (∀ application log response,
        (ScoringApi.scoreApplication application).Converses log (.ok response) →
        (∀ e ∈ log, apiPredicts p e.op e.reply) → (responseRecord response).SelfConsistent) ∧
      ∀ validate message log ending,
        (Consumer.processMessage validate message).Converses log ending →
        (∀ e ∈ log, consumerPredicts p e.op e.reply) →
        ∀ e ∈ log, ∀ result, e.op = .produce result →
          ∃ r, Carries result.value r ∧ r.SelfConsistent := by
  intro h
  obtain ⟨response, hresponse⟩ := exists_response_justBelow plainApplication
  have hmem : (29996 / 100000 : ℚ) ∈ Set.Icc 0 1 := by constructor <;> norm_num
  have hlog := converses_converse justBelow (ScoringApi.scoreApplication plainApplication)
  rw [hresponse] at hlog
  have hpredicts := apiPredicts_justBelow plainApplication
  have hpublished := isPublished_of_converses hlog hpredicts
  have hconsistent := (h _ hmem).1 plainApplication _ response hlog hpredicts
  exact (hpublished.selfConsistent_iff hmem).mp hconsistent _
    (.inr (.inl (by simp [decisionThresholds]))) separates_justBelow

end CreditScoringMlops.Scoring
