import Kasumi.AppendOnly
import Kasumi.CredentialClocks
import Kasumi.CustodyLedger
import Kasumi.DirectoryImages
import Kasumi.DirectoryOrdinal
import Kasumi.DirectoryReachability
import Kasumi.EvacuationSelection
import Kasumi.FenceSafety
import Kasumi.Filters
import Kasumi.JournalSafety
import Kasumi.RaftLogCrash
import Kasumi.ReceiptHistory
import Kasumi.RejectedCommands
import Kasumi.RootRun
import Kasumi.SegmentRun
import Kasumi.UniqueKeys
