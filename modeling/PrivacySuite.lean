import PrivacySuite.Rbac.ShapeGates
import PrivacySuite.Rbac.TraceSoundness
import PrivacySuite.Server.TraceFidelity
import PrivacySuite.Server.Recipients
import PrivacySuite.Proxy.FoldKey
import PrivacySuite.Tracer.StrictTrace
import PrivacySuite.Explorer.LogMasking
import PrivacySuite.Explorer.RowPrivacy
import PrivacySuite.Rbac.LocalInvalidation
import PrivacySuite.Server.OAuthRedis
import PrivacySuite.Server.BanEnforcement
import PrivacySuite.Server.AddressLinks
import PrivacySuite.Server.AdminContainment
import PrivacySuite.Server.LogLocality
import PrivacySuite.Rbac.MembershipMerge
import PrivacySuite.NodeApproval.CallEncoders
import PrivacySuite.Besu.ApprovalSelector
import PrivacySuite.Reth.Sweeps
import PrivacySuite.NodeApproval.Receivers
import PrivacySuite.Besu.InclusionTracker
import PrivacySuite.NodeApproval.Lane
