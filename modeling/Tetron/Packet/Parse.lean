import Tetron.Bytes

/-!
# Parsing IP packets

`parse_packet_info` and its helpers: the addressing, port and ICMP fields of a raw IPv4 or IPv6
packet. What a successful parse says about the packet is `isIpv4_or_isIpv6_of_parse`.
-/

namespace Tetron.Packet

structure PacketInfo where
  srcIp : IpAddr
  dstIp : IpAddr
  protocol : UInt8
  srcPort : ℕ
  dstPort : ℕ
  tcpFlags : UInt8
  icmpType : UInt8
  icmpId : ℕ
deriving DecidableEq

def isIcmp (proto : UInt8) : Bool := proto == 1 || proto == 58

def isIcmpEchoRequest (proto icmpType : UInt8) : Bool :=
  (proto == 1 && icmpType == 8) || (proto == 58 && icmpType == 128)

def isIcmpEchoReply (proto icmpType : UInt8) : Bool :=
  (proto == 1 && icmpType == 0) || (proto == 58 && icmpType == 129)

def extractPorts (protocol : UInt8) (packet : Bytes) (headerLen : ℕ) : ℕ × ℕ :=
  if (protocol = 6 ∨ protocol = 17) ∧ packet.length ≥ headerLen + 4 then
    (u16FromBe (byteAt packet headerLen) (byteAt packet (headerLen + 1)),
      u16FromBe (byteAt packet (headerLen + 2)) (byteAt packet (headerLen + 3)))
  else (0, 0)

def extractTcpFlags (protocol : UInt8) (packet : Bytes) (headerLen : ℕ) : UInt8 :=
  if protocol = 6 ∧ packet.length ≥ headerLen + 14 then byteAt packet (headerLen + 13) else 0

def extractIcmp (protocol : UInt8) (packet : Bytes) (headerLen : ℕ) : UInt8 × ℕ :=
  if isIcmp protocol = false ∨ packet.length < headerLen + 1 then (0, 0)
  else
    let icmpType := byteAt packet headerLen
    let id :=
      if (isIcmpEchoRequest protocol icmpType || isIcmpEchoReply protocol icmpType) = true ∧
          packet.length ≥ headerLen + 6 then
        u16FromBe (byteAt packet (headerLen + 4)) (byteAt packet (headerLen + 5))
      else 0
    (icmpType, id)

/-- The tail both parsers share: everything behind the addresses. -/
def packetInfo (srcIp dstIp : IpAddr) (protocol : UInt8) (packet : Bytes) (headerLen : ℕ) : PacketInfo :=
  let ports := extractPorts protocol packet headerLen
  let icmp := extractIcmp protocol packet headerLen
  { srcIp, dstIp, protocol, srcPort := ports.1, dstPort := ports.2,
    tcpFlags := extractTcpFlags protocol packet headerLen, icmpType := icmp.1, icmpId := icmp.2 }

/-- The IPv4 address at bytes `i` to `i + 3`. -/
def ipv4At (packet : Bytes) (i : ℕ) : Ipv4Addr :=
  Ipv4Addr.new (byteAt packet i) (byteAt packet (i + 1)) (byteAt packet (i + 2)) (byteAt packet (i + 3))

/-- The IPv6 address at bytes `i` to `i + 15`. -/
def ipv6At (packet : Bytes) (i : ℕ) : Ipv6Addr := fun j => byteAt packet (i + j)

/-- The header length field, in words of four bytes. -/
def ihl (packet : Bytes) : ℕ := (byteAt packet 0 &&& 0x0F).toNat

def ipVersion (packet : Bytes) : UInt8 := byteAt packet 0 >>> 4

def parseIpv4 (packet : Bytes) : Option PacketInfo :=
  if packet.length < 20 then none
  else if ihl packet < 5 then none
  else if packet.length < ihl packet * 4 then none
  else some (packetInfo (.v4 (ipv4At packet 12)) (.v4 (ipv4At packet 16)) (byteAt packet 9) packet
    (ihl packet * 4))

def parseIpv6 (packet : Bytes) : Option PacketInfo :=
  if packet.length < 40 then none
  else some (packetInfo (.v6 (ipv6At packet 8)) (.v6 (ipv6At packet 24)) (byteAt packet 6) packet 40)

def parsePacketInfo (packet : Bytes) : Option PacketInfo :=
  if packet = [] then none
  else if ipVersion packet = 4 then parseIpv4 packet
  else if ipVersion packet = 6 then parseIpv6 packet
  else none

/-- An IPv4 packet with a full header, sent from `src`. -/
structure IsIpv4From (src : Ipv4Addr) (packet : Bytes) : Prop where
  version : ipVersion packet = 4
  ihl_ge : 5 ≤ ihl packet
  header_le : ihl packet * 4 ≤ packet.length
  source : ipv4At packet 12 = src

/-- An IPv6 packet with a full header, sent from `src`. -/
structure IsIpv6From (src : Ipv6Addr) (packet : Bytes) : Prop where
  version : ipVersion packet = 6
  header_le : 40 ≤ packet.length
  source : ipv6At packet 8 = src

/-- **What a parse says**: the version decides the family, and the family's header is all there. -/
theorem isIpv4_or_isIpv6_of_parse {packet : Bytes} {info : PacketInfo}
    (h : parsePacketInfo packet = some info) :
    (∃ src, info.srcIp = .v4 src ∧ IsIpv4From src packet) ∨
      ∃ src, info.srcIp = .v6 src ∧ IsIpv6From src packet := by
  unfold parsePacketInfo at h
  split at h
  · cases h
  split at h
  · rename_i hver
    unfold parseIpv4 at h
    split at h
    · cases h
    split at h
    · cases h
    split at h
    · cases h
    · rename_i h5 hlen
      cases h
      exact Or.inl ⟨_, rfl, hver, not_lt.mp h5, not_lt.mp hlen, rfl⟩
  split at h
  · rename_i hver
    unfold parseIpv6 at h
    split at h
    · cases h
    · rename_i hlen
      cases h
      exact Or.inr ⟨_, rfl, hver, not_lt.mp hlen, rfl⟩
  · cases h

end Tetron.Packet
