import CreditScoringMlops.ControlPlane.Fencing
import CreditScoringMlops.ControlPlane.RetryOnAbsence
import CreditScoringMlops.ControlPlane.ClosingCalls
import CreditScoringMlops.ControlPlane.RecordedOutcome
import CreditScoringMlops.ControlPlane.Recovery
import CreditScoringMlops.ControlPlane.FailedRequests
import CreditScoringMlops.ControlPlane.JobIdentity
import CreditScoringMlops.ControlPlane.JobVerdicts
import CreditScoringMlops.ControlPlane.OutcomeClassification
import CreditScoringMlops.ControlPlane.WorkerCycles
import CreditScoringMlops.ControlPlane.WorkerDiscipline
import CreditScoringMlops.ControlPlane.AuditTrail
import CreditScoringMlops.ControlPlane.TruthfulEvents
import CreditScoringMlops.ControlPlane.TraceLookup
import CreditScoringMlops.ControlPlane.OverviewSnapshot
import CreditScoringMlops.ControlPlane.Security
import CreditScoringMlops.ControlPlane.ManifestRendering
import CreditScoringMlops.Migrations.ExecutionStartedAt
import CreditScoringMlops.Migrations.Environment
import CreditScoringMlops.Consumer.ResultLoss
import CreditScoringMlops.Consumer.InvalidMessages
import CreditScoringMlops.Consumer.RepeatedResults
import CreditScoringMlops.Producers.GeneratedApplications
import CreditScoringMlops.Scoring.FeatureAgreement
import CreditScoringMlops.Scoring.PublishedRecord
import CreditScoringMlops.Scoring.ShownLogs
import CreditScoringMlops.Scoring.RestoredData
import CreditScoringMlops.Monitoring.DriftReport
import CreditScoringMlops.Promotion.EvaluationContract
import CreditScoringMlops.Promotion.ChampionHistory
import CreditScoringMlops.Promotion.ModelComparison
import CreditScoringMlops.Promotion.GuardedPromotion
import CreditScoringMlops.Promotion.EvaluationSoundness
import CreditScoringMlops.Agent.Containment
import CreditScoringMlops.Agent.MonitoringAgent
import CreditScoringMlops.Agent.LlmAnswer
import CreditScoringMlops.Agent.TraceClosure
import CreditScoringMlops.Agent.ToolsUsed
import CreditScoringMlops.Agent.ToolContract
import CreditScoringMlops.Pipelines.RetrainingPipeline
import CreditScoringMlops.Pipelines.SelectedModel
import CreditScoringMlops.Training.TrainedChampion
