import QuicOnNs3.Alarm.Deadlines
import QuicOnNs3.Alarm.Teardown
import QuicOnNs3.Alarm.TimeoutCall
import QuicOnNs3.App.Delivery
import QuicOnNs3.App.Faults
import QuicOnNs3.CcAlgo.CdgBackoff
import QuicOnNs3.CcAlgo.CdgCeiling
import QuicOnNs3.CcAlgo.CdgRound
import QuicOnNs3.CcAlgo.CopaDecrease
import QuicOnNs3.CcAlgo.CopaLoss
import QuicOnNs3.CcAlgo.CopaVelocity
import QuicOnNs3.CcAlgo.CopaWindow
import QuicOnNs3.CcAlgo.VegasCoherence
import QuicOnNs3.CcAlgo.VegasEpoch
import QuicOnNs3.CcAlgo.VegasRoundRtt
import QuicOnNs3.CcAlgo.VegasSlowStart
import QuicOnNs3.CcAlgo.VegasWindow
import QuicOnNs3.Server.Bandwidth
import QuicOnNs3.Server.Endpoint
import QuicOnNs3.Trace.Files
import QuicOnNs3.Trace.GoodputRate
import QuicOnNs3.Trace.LostPackets
import QuicOnNs3.Trace.TagSize
import QuicOnNs3.Util.MakePath
import QuicOnNs3.CcAlgo.CopaSlowStart
import QuicOnNs3.CcAlgo.VegasRecovery
