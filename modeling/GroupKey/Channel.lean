import GroupKey.Endpoint

/-!
# The multicast channel's configuration

Where a channel listens, the group it joins, and the largest datagram it carries.
-/

namespace GroupKey

/-- The largest datagram a channel carries unless it is told otherwise. -/
def defaultMaxDatagram : Nat := 1024

structure ChannelConfig where
  listenInterface : Address := ⟨0, 0, 0, 0⟩
  multicastAddress : Address := ⟨239, 255, 0, 1⟩
  multicastPort : UInt16 := 65000
  maxDatagram : Nat := defaultMaxDatagram
  timeToLive : UInt32 := 1
  loopback : Bool := true
  deriving DecidableEq, Repr

inductive ChannelError
  | notMulticast (address : Address)
  | zeroPort
  | datagramLimit (bytes : Nat)
  | datagramTooLarge (size limit : Nat)
  deriving DecidableEq, Repr

def ChannelError.message : ChannelError → String
  | notMulticast address =>
    "invalid configuration: " ++ address.toText ++ " is not a multicast address"
  | zeroPort => "invalid configuration: multicast port must be non-zero"
  | datagramLimit n =>
    "invalid configuration: max datagram " ++ toString n ++ " out of range 1..=65507"
  | datagramTooLarge size limit =>
    "datagram too large: " ++ toString size ++ " bytes (max " ++ toString limit ++ ")"

namespace ChannelConfig

def group (c : ChannelConfig) : Endpoint := ⟨c.multicastAddress, c.multicastPort⟩

def validate (c : ChannelConfig) : Except ChannelError Unit :=
  if !c.multicastAddress.isMulticast then .error (.notMulticast c.multicastAddress)
  else if c.multicastPort = 0 then .error .zeroPort
  else if c.maxDatagram = 0 || 65507 < c.maxDatagram then .error (.datagramLimit c.maxDatagram)
  else .ok ()

def describe (c : ChannelConfig) : String :=
  "ChannelConfig \x7b listen_interface: " ++ c.listenInterface.toText ++
    ", multicast_addr: " ++ c.multicastAddress.toText ++
    ", multicast_port: " ++ toString c.multicastPort.toNat ++
    ", max_datagram: " ++ toString c.maxDatagram ++
    ", multicast_ttl: " ++ toString c.timeToLive.toNat ++
    ", multicast_loop: " ++ toString c.loopback ++ " \x7d"

end ChannelConfig

end GroupKey
