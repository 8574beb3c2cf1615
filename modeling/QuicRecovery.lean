import QuicRecovery.State
import QuicRecovery.Congestion
import QuicRecovery.RangeDb
import QuicRecovery.AckPacket
import QuicRecovery.Loss
import QuicRecovery.AckFrame
import QuicRecovery.Timer
import QuicRecovery.InFlight
import QuicRecovery.AckRange
import QuicRecovery.Rtt
import QuicRecovery.Estimate
import QuicRecovery.Persistent
import QuicRecovery.Order
import QuicRecovery.Retransmit
import QuicRecovery.AckOfAck
import QuicRecovery.IotUnsubscribe
import QuicRecovery.ClientHello
import QuicRecovery.ClientHelloFfi
