import Signari.PolicyOrder
import Signari.FlowPaths
import Signari.ExchangeChains
import Signari.ScimGroupAccount
import Signari.CodeBinding
import Signari.Resumption
import Signari.RefreshLineage
import Signari.DeviceRedemption
import Signari.ScimListing
import Signari.SearchWalk
import Signari.AccessPolicies
import Signari.ConfigConvergence
import Signari.AuditEvidence
import Signari.AuditCheckpoints
import Signari.EapTls
import Signari.DirectoryConvergence
import Signari.SecondFactor
import Signari.SdJwtRoundTrip
import Signari.OutboxDelivery
import Signari.SessionLimit
import Signari.DpopProofs
import Signari.EmailCodes
import Signari.GrantCascade
import Signari.ChainResolution
import Signari.CodeReplay
import Signari.QrReading
import Signari.TransactionTokens
import Signari.SignalAuthority
import Signari.PollDelivery
import Signari.RootRotation
import Signari.KeyRetirement
import Signari.UmaApprovals
import Signari.FederatedCallbacks
import Signari.FederatedIdentities
import Signari.PasskeyRemoval
import Signari.ConditionalWrites
import Signari.SamlReplay
import Signari.RecoveryRuns
import Signari.JsonTokenWalk
import Signari.LdapModify
import Signari.LdapFilters
import Signari.LdapNames
import Signari.RadiusHiding
import Signari.GuacamoleFrames
import Signari.LoopbackRedirects
import Signari.RedirectValidation
import Signari.DirectoryCeilings
import Signari.AuthzGraphs
import Signari.AuthzDecoding
import Signari.ScopeMetadata
import Signari.FilterPrinting
import Signari.FilterGrammar
import Signari.MemberSelection
import Signari.UserPatchMeaning
import Signari.PathReaders
import Signari.UserNameFilters
import Signari.GrantedScopes
import Signari.PushedValidation
import Signari.TokenBucket
import Signari.LoginThrottle
import Signari.SafeDial
import Signari.UriComparison
import Signari.StepUpAge
import Signari.DetailConstraints
import Signari.ScopeTokens
