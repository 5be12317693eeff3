import ConfidentialCompute.Authenticity
import ConfidentialCompute.CacheHistory
import ConfidentialCompute.ConfigTracker
import ConfidentialCompute.EgressProxy
import ConfidentialCompute.Enclave.KeyAttestations
import ConfidentialCompute.Enclave.Replay
import ConfidentialCompute.Enclave.Steering
import ConfidentialCompute.Executor.AuthHeader
import ConfidentialCompute.Executor.CacheRuns
import ConfidentialCompute.Executor.NodeLists
import ConfidentialCompute.Executor.ReferenceIDs
import ConfidentialCompute.Executor.ResponseOrder
import ConfidentialCompute.Executor.Shutdown
import ConfidentialCompute.Gateway.Retry
import ConfidentialCompute.Host.Admission
import ConfidentialCompute.Host.Delivery
import ConfidentialCompute.Host.ExecutionLoad
import ConfidentialCompute.Host.MemoryWindow
import ConfidentialCompute.Host.SignerKeys
import ConfidentialCompute.HttpErrors
import ConfidentialCompute.KeyExpiry
import ConfidentialCompute.KeyPinning
import ConfidentialCompute.Reconfiguration
import ConfidentialCompute.RelayAgreement
import ConfidentialCompute.RelaySecrets
import ConfidentialCompute.ShareAggregation
import ConfidentialCompute.Workflows.ConfigPush
import ConfidentialCompute.Workflows.Download
import ConfidentialCompute.Workflows.ExecutionLimits
import ConfidentialCompute.Workflows.FetchRuns
