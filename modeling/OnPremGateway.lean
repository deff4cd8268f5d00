import OnPremGateway.AdmissionVictims
import OnPremGateway.OwnerDepth
import OnPremGateway.OwnerGrants
import OnPremGateway.OwnerSignals
import OnPremGateway.OwnerRetries
import OnPremGateway.OwnerBootstrap
import OnPremGateway.OwnerGrace
import OnPremGateway.OwnerLaunch
import OnPremGateway.LaunchCommand
import OnPremGateway.SessionSlots
import OnPremGateway.GroupDeadEnds
import OnPremGateway.HardGates
import OnPremGateway.ToolArguments
import OnPremGateway.ModelGroupCycles
import OnPremGateway.ReplayedReasoning
import OnPremGateway.FileModeSync
import OnPremGateway.ConfigDelivery
import OnPremGateway.EnergyLedger
import OnPremGateway.GroupControl
import OnPremGateway.GroupOwners
import OnPremGateway.LimiterBounds
import OnPremGateway.LogConservation
import OnPremGateway.WavDuration
import OnPremGateway.SpeakPositions
import OnPremGateway.EnergySharing
import OnPremGateway.AdmissionGrace
import OnPremGateway.VoiceOrder
import OnPremGateway.AdmissionQueue
import OnPremGateway.GroupFlattening
import OnPremGateway.ActivitySeries
import OnPremGateway.AgentLogs
import OnPremGateway.DirPolicy
import OnPremGateway.LogChunks
