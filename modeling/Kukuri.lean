import Kukuri.Transport.WorkFairness
import Kukuri.Core.TopologyAgreement
import Kukuri.Metaverse.InputReplay
import Kukuri.Metaverse.TransitionSafety
import Kukuri.Metaverse.RefusedInputs
import Kukuri.AppApi.AccountSyncWrites
import Kukuri.AppApi.AccountSyncUpdates
import Kukuri.AppApi.ChannelController
import Kukuri.AppApi.DirectMessages
import Kukuri.Core.DeviceBackupIntegrity
import Kukuri.CnSafety.Policy
import Kukuri.IrohNode.GameChannelOrder
import Kukuri.DesktopRuntime.TransferStagingKept
import Kukuri.DesktopRuntime.HistoryPageExact
import Kukuri.DesktopRuntime.HistoryStagingKept
import Kukuri.IrohNode.TransferCancel
import Kukuri.Store.Participants
import Kukuri.Store.RemoteCacheFileSafety
import Kukuri.DocsSync.KeyPage
import Kukuri.IrohNode.ExactRead
import Kukuri.IrohNode.ReadCapability
import Kukuri.CnCore.LoginAdmission
import Kukuri.Store.PublicChannels
import Kukuri.Transport.FetchWindow
import Kukuri.Transport.FetchRetry
