import ModemSupport.Sipc.SblockWrap
import ModemSupport.Sipc.SblockRecover
import ModemSupport.Sipc.SbufWrap
import ModemSupport.Sipc.SbufWake
import ModemSupport.Sipc.SmsgDispatch
import ModemSupport.Sipc.SmsgHandshake
import ModemSupport.Power.MpmBusy
import ModemSupport.Power.MpmWork
import ModemSupport.Power.PmsCounts
import ModemSupport.Sipa.SenderCredit
import ModemSupport.Sipa.SenderFlow
import ModemSupport.Sipa.ReceiverMatch
import ModemSupport.Mhi.ChanVotes
import ModemSupport.Mhi.UciDelivery
import ModemSupport.Mhi.DoorbellSeen
import ModemSupport.Mhi.CommandAnswers
import ModemSupport.Mhi.NetQueue
import ModemSupport.Gobi.ReadSyncAwake
import ModemSupport.Gobi.ReadSyncLifetime
import ModemSupport.Gobi.WriteSyncOwn
import ModemSupport.Cm.QmiProxyClients
import ModemSupport.Cm.QmiStreamFrames
import ModemSupport.Cm.QmiThreadOwned
import ModemSupport.Cm.QmiMainLink
import ModemSupport.Cm.MbimMainWakeups
import ModemSupport.Cm.MbimSessionAddresses
import ModemSupport.Rooter.FirehoseSparseImage
import ModemSupport.Rooter.FirehoseMainOrder
import ModemSupport.Rooter.Usb2tcpTransfers
import ModemSupport.Rooter.RamDumpFiles
import ModemSupport.Luci.DialOwners
import ModemSupport.Luci.RegistryRuns
import ModemSupport.Rooter.GcomLocked
import ModemSupport.Pcie.EpBarsCycles
import ModemSupport.Pcie.EpIrqKept
import ModemSupport.Pcie.LinkVotesAgree
import ModemSupport.Sipa.EthXmit
import ModemSupport.Sipa.NapiPoll
import ModemSupport.Sipa.NodeDesc
import ModemSupport.Sipc.SblockLayout
import ModemSupport.Rooter.BwmonReportWhole
import ModemSupport.Rooter.BwmonTrafficOnce
import ModemSupport.Rooter.ModeswitchApart
import ModemSupport.Sipc.SmemUsed
import ModemSupport.Qmi.QmapInBounds
import ModemSupport.Mhi.MbimRoundTrip
import ModemSupport.Mhi.ChanStartFailed
import ModemSupport.Mhi.UciWrite
import ModemSupport.Mhi.UciDevLife
import ModemSupport.Mhi.Tsync
import ModemSupport.Qmi.FibocomRxExact
import ModemSupport.Qmi.TxAggRoom
import ModemSupport.Gobi.GetTlv
import ModemSupport.Cm.SysInfoOrder
import ModemSupport.Cm.ComposeQmuxAnswers
import ModemSupport.Cm.MbimComposeReadBack
import ModemSupport.Cm.MbimRecvBounds
import ModemSupport.Cm.ResolvConfOwn
import ModemSupport.Cm.MultiPdnSession
import ModemSupport.Rooter.SmsMergeApart
import ModemSupport.Rooter.SmsHeaderText
import ModemSupport.Rooter.SmsReaderLine
import ModemSupport.Rooter.QlogSendWhole
import ModemSupport.Luci.ManualConfigOwn
import ModemSupport.Rooter.StreamDownloadWhole
import ModemSupport.Rooter.FirehoseScriptWhole
import ModemSupport.Rooter.FirehoseAnswersWhole
import ModemSupport.Rooter.FirehoseRawmodeWhole
import ModemSupport.Rooter.SaharaWhole
import ModemSupport.Rooter.SaharaDumpWhole
import ModemSupport.Sendat.Conversion
import ModemSupport.Rooter.CreateConnect
import ModemSupport.Pcie.LinkRequests
import ModemSupport.Sipc.Spool
import ModemSupport.Luci.HuaweiBands
import ModemSupport.Rooter.BwmonThrottle
import ModemSupport.Rooter.BandMask
