import Liteflow.Proof.AckTwice
import Liteflow.Proof.ActiveQueue
import Liteflow.Proof.AppLimited
import Liteflow.Proof.Delivery
import Liteflow.Proof.EventTimer
import Liteflow.Proof.FailedWrite
import Liteflow.Proof.FecBounds
import Liteflow.Proof.FecOrder
import Liteflow.Proof.FecRoundTrip
import Liteflow.Proof.Flows
import Liteflow.Proof.Listeners
import Liteflow.Proof.Pacing
import Liteflow.Proof.PacingRate
import Liteflow.Proof.Peers
import Liteflow.Proof.Quarantine
import Liteflow.Proof.Replies
import Liteflow.Proof.Resched
import Liteflow.Proof.Rounds
import Liteflow.Proof.Silence
import Liteflow.Proof.StableNodes
import Liteflow.Proof.Sweep
import Liteflow.Proof.Udp
import Liteflow.Proof.UdpTable
import Liteflow.Proof.WindowedFilter
