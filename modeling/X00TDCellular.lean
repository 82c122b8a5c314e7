import X00TDCellular.QmiRoundTrip
import X00TDCellular.QrtrTxn
import X00TDCellular.SsrUplink
import X00TDCellular.TxPipe
import X00TDCellular.TxPipeMode
import X00TDCellular.TxPipeAccounting
import X00TDCellular.AddressPrefix
import X00TDCellular.FltEquation
import X00TDCellular.WanDlEquations
import X00TDCellular.FltTable
import X00TDCellular.RmnetIpa
import X00TDCellular.AutoIpacm
import X00TDCellular.RuleInstall
import X00TDCellular.WanDlInstalled
import X00TDCellular.SpecAgreement
import X00TDCellular.MuxDuplicates
import X00TDCellular.TruthfulNotif
import X00TDCellular.EgressIoctl
import X00TDCellular.UlDelete
import X00TDCellular.UlSymmetry
import X00TDCellular.EnvProgram
import X00TDCellular.ModemRestart
import X00TDCellular.VendorInit
import X00TDCellular.VendorInitSockets
import X00TDCellular.VendorInitLifeCycle
import X00TDCellular.VendorInitCalls
import X00TDCellular.VendorInitRat
import X00TDCellular.VendorInitFraming
import X00TDCellular.VendorInitBearer
import X00TDCellular.MsmBus
import X00TDCellular.MsmBusHandles
import X00TDCellular.MsmBusVotes
import X00TDCellular.ApplyEdit
import X00TDCellular.PortRerun
import X00TDCellular.QmiHostile
import X00TDCellular.VendorInitRequests
import X00TDCellular.VendorInitMux
import X00TDCellular.VendorInitReplies
import X00TDCellular.UlTables
import X00TDCellular.VendorInitOutcome
import X00TDCellular.TxPipeRecovery
import X00TDCellular.StallWatchdog
import X00TDCellular.QrtrLookup
import X00TDCellular.QrtrSelection
import X00TDCellular.VendorInitHold
import X00TDCellular.MsmBusRequests
import X00TDCellular.ApplyEditOutcome
import X00TDCellular.DtsConfiguration
import X00TDCellular.BusyPoll
import X00TDCellular.IpaRmGuarantees
import X00TDCellular.IpaRmDependencies
import X00TDCellular.IpaRmVotes
import X00TDCellular.IpaRmWaiters
import X00TDCellular.FltCommitRefinement
