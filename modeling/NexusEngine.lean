import NexusEngine.TransactionalRequests
import NexusEngine.ReadCommittedSessions
import NexusEngine.HashChains
import NexusEngine.TextEncodings
import NexusEngine.Sha256
import NexusEngine.JsonDocuments
import NexusEngine.CalendarTime
import NexusEngine.StoredColumns
import NexusEngine.KeyedTables
import NexusEngine.AuditLogTable
import NexusEngine.HsmTables
import NexusEngine.ConfigurationTable
import NexusEngine.Database
import NexusEngine.AuditService
import NexusEngine.AuditVerification
import NexusEngine.AuditAppends
import NexusEngine.TransactionFaults
import NexusEngine.AuditedTransactions
import NexusEngine.AuditSerialLogs
import NexusEngine.AuditConcurrentAppends
import NexusEngine.HsmService
import NexusEngine.HsmLifecycle
import NexusEngine.HsmKeyStatus
import NexusEngine.HsmActivation
import NexusEngine.DekRotation
import NexusEngine.SuccessorChains
import NexusEngine.KeyLineage
import NexusEngine.KeySuccession
import NexusEngine.HsmQuorumRaces
import NexusEngine.ConfigurationService
import NexusEngine.ConfigurationLifecycle
import NexusEngine.ConfigurationVersions
import NexusEngine.ConfigurationRaces
import NexusEngine.ConfigurationTransactions
import NexusEngine.ConfigurationReads
import NexusEngine.ConfigurationConfidentiality
import NexusEngine.ParameterService
import NexusEngine.ParameterLifecycle
import NexusEngine.ParameterTransactions
import NexusEngine.ParameterStaging
import NexusEngine.ParameterHistory
import NexusEngine.ParameterTypes
import NexusEngine.RelatedLists
import NexusEngine.RelatedReads
import NexusEngine.ParameterConfidentiality
import NexusEngine.AuthService
import NexusEngine.AuthLifecycle
import NexusEngine.RefreshTokenRuns
import NexusEngine.PasswordResetTokens
import NexusEngine.RefreshTokenRaces
import NexusEngine.PasswordChangeRaces
import NexusEngine.DashboardActivity
import NexusEngine.TenantDeletion
import NexusEngine.AnomalyTransactions
import NexusEngine.AuditedOperations
import NexusEngine.MetadataSanitisation
import NexusEngine.AuditTrails
import NexusEngine.ConfigurationAudit
import NexusEngine.RequestStatements
import NexusEngine.QuietRequests
import NexusEngine.JsonFieldText
import NexusEngine.AnomalyHistory
import NexusEngine.AnomalyHistories
import NexusEngine.ApiRequests
import NexusEngine.AnomalyHistoryFrame
import NexusEngine.TenantProvisioning
import NexusEngine.AnomalyResolution
import NexusEngine.AuditLogReads
import NexusEngine.GroupedCounts
import NexusEngine.TenantAttribution
import NexusEngine.SecurityHistory
import NexusEngine.RbacService
import NexusEngine.RbacLifecycle
import NexusEngine.RbacViews
import NexusEngine.AccountLogins
import NexusEngine.Dictionaries
import NexusEngine.JsonEquality
import NexusEngine.ConfigurationComparisons
import NexusEngine.ConfigurationRollback
import NexusEngine.EngineService
import NexusEngine.OperationsService
import NexusEngine.Paging
import NexusEngine.ActiveSessions
import NexusEngine.AuditLogPages
import NexusEngine.ListingPages
import NexusEngine.SecurityPosture
import NexusEngine.ConfigurationNames
import NexusEngine.AnomalyBulkUpdates
import NexusEngine.ConfigurationImports
import NexusEngine.ParameterPending
import NexusEngine.HsmAdmissions
import NexusEngine.ParameterOptions
import NexusEngine.TenancyScreens
import NexusEngine.ComplianceService
import NexusEngine.AssessmentScores
import NexusEngine.NotificationService
import NexusEngine.NotificationIsolation
import NexusEngine.PartialUpdates
import NexusEngine.AuditSearches
import NexusEngine.RolePermissionSets
import NexusEngine.CeremonyAdmissions
import NexusEngine.ConfigurationAdmissions
import NexusEngine.AdminAccounts
import NexusEngine.NestedDictionaries
import NexusEngine.ControlCoverage
import NexusEngine.SessionInvariants
import NexusEngine.SafeServices
import NexusEngine.ConfigurationVersionRaces
import NexusEngine.HashForests
import NexusEngine.AuditForest
import NexusEngine.ParameterRaces
import NexusEngine.ProvisioningRaces
import NexusEngine.AccountLockout
import NexusEngine.AssessmentRaces
import NexusEngine.SessionAnswers
import NexusEngine.GrowingPages
import NexusEngine.AuditReadRaces
import NexusEngine.NotificationRaces
import NexusEngine.AccountPrivileges
import NexusEngine.CollectedGroups
import NexusEngine.ComplianceScreens
import NexusEngine.ScoreTrends
