import LibbpfBootstrap.Kernel.Helpers
import LibbpfBootstrap.Kernel.RingBuf
import LibbpfBootstrap.Libc.Text

/-! The two halves of `sockfilter`: the filter program, which takes a record out
of the ring and fills it from a frame, and the callback that prints the record.
A record is the bytes of `struct so_event`. The program writes its fields one by
one over the bytes it found, only one byte of the four of `ip_proto`, and no
address at all for GRE. The host is little-endian, the runs of the program are
taken one after the other, and a reservation succeeds or fails at the kernel's
will: what the consumer has read is not modelled. -/

namespace LibbpfBootstrap.Sockfilter

open Kernel Libc

/-- As much of `struct __sk_buff` as the program reads; `len` is the length of `data`. -/
structure Skb where
  data : List UInt8
  pktType : BitVec 32
  ifindex : BitVec 32

/-- `bpf_skb_load_bytes`: the bytes asked for, or as many zeros if one of them is
outside the frame. -/
def Skb.loadBytes (skb : Skb) (off n : ℕ) : List UInt8 :=
  if off + n ≤ skb.data.length then (skb.data.drop off).take n else List.replicate n 0

@[simp] theorem Skb.length_loadBytes (skb : Skb) (off n : ℕ) : (skb.loadBytes off n).length = n := by
  unfold loadBytes
  split_ifs with h
  · rw [List.length_take, List.length_drop]
    omega
  · exact List.length_replicate

def le16 (bs : List UInt8) : BitVec 16 := BitVec.ofNat 16 (leNat bs)

def le32 (bs : List UInt8) : BitVec 32 := BitVec.ofNat 32 (leNat bs)

def ntohs (x : BitVec 16) : BitVec 16 := x.extractLsb' 0 8 ++ x.extractLsb' 8 8

def ntohl (x : BitVec 32) : BitVec 32 :=
  x.extractLsb' 0 8 ++ x.extractLsb' 8 8 ++ x.extractLsb' 16 8 ++ x.extractLsb' 24 8

/-! ### The record -/

/-- The bytes of `struct so_event`. -/
abbrev SoEvent := CharBuf 24

namespace SoEvent

def srcAddr (e : SoEvent) : BitVec 32 := le32 (e.peek 0 4)

def dstAddr (e : SoEvent) : BitVec 32 := le32 (e.peek 4 4)

/-- An element of `port16`, which shares its bytes with `ports`. -/
def port16 (e : SoEvent) (i : ℕ) : BitVec 16 := le16 (((e.peek 8 4).drop (2 * i)).take 2)

def ipProto (e : SoEvent) : BitVec 32 := le32 (e.peek 12 4)

def pktType (e : SoEvent) : BitVec 32 := le32 (e.peek 16 4)

def ifindex (e : SoEvent) : BitVec 32 := le32 (e.peek 20 4)

end SoEvent

/-! ### The filter program -/

def ethHlen : ℕ := 14

def ethPIp : BitVec 16 := 0x0800#16

def ipMf : BitVec 16 := 0x2000#16

def ipOffset : BitVec 16 := 0x1FFF#16

def ipprotoGre : BitVec 32 := 47#32

def ipIsFragment (skb : Skb) (nhoff : ℕ) : BitVec 16 :=
  ntohs (le16 (skb.loadBytes (nhoff + 6) 2)) &&& (ipMf ||| ipOffset)

namespace Skb

variable (skb : Skb)

/-- The first store: one byte into the four of `ip_proto`. -/
def storeProto (e : SoEvent) : SoEvent := e.poke 12 (skb.loadBytes (ethHlen + 9) 1)

/-- The two addresses, unless the protocol is GRE. -/
def storeAddrs (e : SoEvent) : SoEvent :=
  if e.ipProto ≠ ipprotoGre then
    (e.poke 0 (skb.loadBytes (ethHlen + 12) 4)).poke 4 (skb.loadBytes (ethHlen + 16) 4)
  else e

/-- Where the header ends, by the low half of its first byte. -/
def portsOff : ℕ := ethHlen + ((leNat (skb.loadBytes ethHlen 1) &&& 0xF) <<< 2)

/-- What the program writes over the bytes of a reserved record. -/
def fill (e : SoEvent) : SoEvent :=
  (((skb.storeAddrs (skb.storeProto e)).poke 8 (skb.loadBytes skb.portsOff 4)).poke 16
    (leBytes 4 skb.pktType.toNat)).poke 20 (leBytes 4 skb.ifindex.toNat)

end Skb

/-- A record that was submitted: the frame it is about, the bytes found in the
reservation, and the bytes handed to the consumer. -/
structure Submission where
  skb : Skb
  found : SoEvent
  record : SoEvent

/-- The size of the map `rb`. -/
def ringSize : ℕ := 256 * 1024

/-- The program. `granted` is the kernel's answer to the reservation: nothing, or
the header that the kernel writes in front of the record. -/
def socketHandler (skb : Skb) (granted : Option RingBuf.Header) (rb : RingBuf) :
    (RingBuf × List Submission) × BitVec 32 :=
  if ntohs (le16 (skb.loadBytes 12 2)) ≠ ethPIp then ((rb, []), 0#32)
  else if ipIsFragment skb ethHlen ≠ 0#16 then ((rb, []), 0#32)
  else
    match granted with
    | none => ((rb, []), 0#32)
    | some header =>
      let r := rb.submit ringSize header skb.fill
      ((r.1, [⟨skb, r.2.1, r.2.2⟩]), BitVec.ofNat 32 skb.data.length)

/-! ### The callback -/

def packetHost : BitVec 32 := 0#32

/-- `IPPROTO_MAX` of the system headers. Older ones have 256; no record tells the two apart. -/
def ipprotoMax : ℕ := 263

def ipprotoMapping : ℕ → Option String
  | 0 => some "IP"
  | 1 => some "ICMP"
  | 2 => some "IGMP"
  | 4 => some "IPIP"
  | 6 => some "TCP"
  | 8 => some "EGP"
  | 12 => some "PUP"
  | 17 => some "UDP"
  | 22 => some "IDP"
  | 29 => some "TP"
  | 33 => some "DCCP"
  | 41 => some "IPV6"
  | 46 => some "RSVP"
  | 47 => some "GRE"
  | 50 => some "ESP"
  | 51 => some "AH"
  | 92 => some "MTP"
  | 94 => some "BEETPH"
  | 98 => some "ENCAP"
  | 103 => some "PIM"
  | 108 => some "COMP"
  | 132 => some "SCTP"
  | 136 => some "UDPLITE"
  | 137 => some "MPLS"
  | 255 => some "RAW"
  | _ => none

/-- An address in dotted form, in a buffer of sixteen bytes. -/
def ltoa (addr : BitVec 32) : List UInt8 :=
  (decimal ((addr >>> 24) &&& 0xFF#32).toNat ++ ascii "." ++ decimal ((addr >>> 16) &&& 0xFF#32).toNat ++ ascii "." ++
    decimal ((addr >>> 8) &&& 0xFF#32).toNat ++ ascii "." ++ decimal (addr &&& 0xFF#32).toNat).take 15

/-- The conversion `%s` of a pointer that may be NULL. -/
def strOrNull (s : Option String) : List UInt8 := ascii (s.getD "(null)")

/-- The line printed for a record, with the name of its interface. -/
def eventLine (ifname : List UInt8) (e : SoEvent) : List UInt8 :=
  ascii "interface: " ++ ifname ++ ascii "\tprotocol: " ++ strOrNull (ipprotoMapping e.ipProto.toNat) ++ ascii "\t" ++
    (ltoa (ntohl e.srcAddr) ++ (ascii ":" ++ decimal (ntohs (e.port16 0)).toNat ++ ascii "(src) -> " ++
      (ltoa (ntohl e.dstAddr) ++ (ascii ":" ++ decimal (ntohs (e.port16 1)).toNat ++ ascii "(dst)\n"))))

/-- The callback: what it prints. The first half of its range check, a negative
`ip_proto`, is void, as the field is unsigned. -/
def handleEvent (ifIndextoname : BitVec 32 → Option (List UInt8)) (e : SoEvent) : Option (List UInt8) :=
  if e.pktType ≠ packetHost then none
  else if ipprotoMax ≤ e.ipProto.toNat then none
  else
    match ifIndextoname e.ifindex with
    | none => none
    | some ifname => some (eventLine ifname e)

/-! ### What the fields of a filled record are -/

section Fields

variable (skb : Skb) (e : SoEvent)

/-- The protocol byte of the frame, zero if the frame ends before it. -/
def Skb.protocol : UInt8 := (skb.loadBytes (ethHlen + 9) 1).headD 0

/-- The three bytes of `ip_proto` that the program does not write. -/
def SoEvent.protoRest (e : SoEvent) : List UInt8 := e.peek 13 3

theorem loadBytes_protocol : skb.loadBytes (ethHlen + 9) 1 = [skb.protocol] := by
  obtain ⟨b, hb⟩ := List.length_eq_one_iff.mp (skb.length_loadBytes (ethHlen + 9) 1)
  rw [Skb.protocol, hb, List.headD_cons]

theorem peek_storeProto : (skb.storeProto e).peek 12 4 = skb.protocol :: e.protoRest := by
  have hb := loadBytes_protocol skb
  have h1 : (skb.storeProto e).peek 12 1 = [skb.protocol] := by
    rw [Skb.storeProto, hb]
    exact CharBuf.peek_poke_self e rfl (by decide)
  have h3 : (skb.storeProto e).peek 13 3 = e.protoRest :=
    CharBuf.peek_poke_of_disjoint e (Or.inr (by rw [Skb.length_loadBytes]))
  rw [CharBuf.peek_add 12 1 3, h1, h3]
  rfl

/-- The store of one byte sets the whole field when its other bytes are zero. -/
theorem ipProto_storeProto {e : SoEvent} (h : e.protoRest = [0, 0, 0]) :
    (skb.storeProto e).ipProto = BitVec.ofNat 32 skb.protocol.toNat := by
  rw [SoEvent.ipProto, peek_storeProto, h]
  rfl

theorem peek_storeAddrs_of_le {off n : ℕ} (h : 8 ≤ off) : (skb.storeAddrs e).peek off n = e.peek off n := by
  unfold Skb.storeAddrs
  split_ifs
  · rw [CharBuf.peek_poke_of_disjoint _ (Or.inr (by simpa using h)),
      CharBuf.peek_poke_of_disjoint _ (Or.inr (by simp only [Skb.length_loadBytes]; omega))]
  · rfl

/-- The stores behind the addresses leave every field before `ports` alone. -/
theorem peek_fill_addr {off : ℕ} (h : off + 4 ≤ 8) :
    (skb.fill e).peek off 4 = (skb.storeAddrs (skb.storeProto e)).peek off 4 := by
  unfold Skb.fill
  rw [CharBuf.peek_poke_of_disjoint _ (Or.inl (by omega)), CharBuf.peek_poke_of_disjoint _ (Or.inl (by omega)),
    CharBuf.peek_poke_of_disjoint _ (Or.inl h)]

/-- For GRE the addresses are the bytes that were there. -/
theorem peek_fill_addr_of_gre {off : ℕ} (h : off + 4 ≤ 8) (hgre : (skb.storeProto e).ipProto = ipprotoGre) :
    (skb.fill e).peek off 4 = e.peek off 4 := by
  rw [peek_fill_addr _ _ h, Skb.storeAddrs, if_neg (not_not.mpr hgre), Skb.storeProto,
    CharBuf.peek_poke_of_disjoint _ (Or.inl (by omega))]

theorem srcAddr_fill_of_gre (hgre : (skb.storeProto e).ipProto = ipprotoGre) : (skb.fill e).srcAddr = e.srcAddr :=
  congrArg le32 (peek_fill_addr_of_gre skb e (by decide) hgre)

theorem dstAddr_fill_of_gre (hgre : (skb.storeProto e).ipProto = ipprotoGre) : (skb.fill e).dstAddr = e.dstAddr :=
  congrArg le32 (peek_fill_addr_of_gre skb e (by decide) hgre)

theorem srcAddr_fill (hgre : (skb.storeProto e).ipProto ≠ ipprotoGre) :
    (skb.fill e).srcAddr = le32 (skb.loadBytes (ethHlen + 12) 4) := by
  rw [SoEvent.srcAddr, peek_fill_addr _ _ (by decide), Skb.storeAddrs, if_pos hgre,
    CharBuf.peek_poke_of_disjoint _ (Or.inl (by decide)),
    CharBuf.peek_poke_self _ (skb.length_loadBytes _ _) (by decide)]

theorem dstAddr_fill (hgre : (skb.storeProto e).ipProto ≠ ipprotoGre) :
    (skb.fill e).dstAddr = le32 (skb.loadBytes (ethHlen + 16) 4) := by
  rw [SoEvent.dstAddr, peek_fill_addr _ _ (by decide), Skb.storeAddrs, if_pos hgre,
    CharBuf.peek_poke_self _ (skb.length_loadBytes _ _) (by decide)]

theorem peek_fill_proto : (skb.fill e).peek 12 4 = skb.protocol :: e.protoRest := by
  unfold Skb.fill
  rw [CharBuf.peek_poke_of_disjoint _ (Or.inl (by decide)), CharBuf.peek_poke_of_disjoint _ (Or.inl (by decide)),
    CharBuf.peek_poke_of_disjoint _ (Or.inr (by rw [Skb.length_loadBytes])), peek_storeAddrs_of_le _ _ (by decide),
    peek_storeProto]

theorem ipProto_fill {e : SoEvent} (h : e.protoRest = [0, 0, 0]) :
    (skb.fill e).ipProto = BitVec.ofNat 32 skb.protocol.toNat := by
  rw [SoEvent.ipProto, peek_fill_proto, h]
  rfl

theorem protoRest_fill : (skb.fill e).protoRest = e.protoRest := by
  have h := peek_fill_proto skb e
  rw [CharBuf.peek_add 12 1 3] at h
  exact (List.append_inj (h.trans List.singleton_append.symm) (by simp [CharBuf.peek])).2

theorem peek_fill_ports : (skb.fill e).peek 8 4 = skb.loadBytes skb.portsOff 4 := by
  unfold Skb.fill
  rw [CharBuf.peek_poke_of_disjoint _ (Or.inl (by decide)), CharBuf.peek_poke_of_disjoint _ (Or.inl (by decide)),
    CharBuf.peek_poke_self _ (skb.length_loadBytes _ _) (by decide)]

theorem le32_leBytes (x : BitVec 32) : le32 (leBytes 4 x.toNat) = x := by
  have hlt : x.toNat < 256 ^ 4 := x.isLt
  rw [le32, leNat_leBytes, Nat.mod_eq_of_lt hlt, BitVec.ofNat_toNat, BitVec.setWidth_eq]

theorem pktType_fill : (skb.fill e).pktType = skb.pktType := by
  unfold SoEvent.pktType Skb.fill
  rw [CharBuf.peek_poke_of_disjoint _ (Or.inl (by decide))]
  rw [CharBuf.peek_poke_self _ (length_leBytes _ _) (by decide), le32_leBytes]

theorem ifindex_fill : (skb.fill e).ifindex = skb.ifindex := by
  unfold SoEvent.ifindex Skb.fill
  rw [CharBuf.peek_poke_self _ (length_leBytes _ _) (by decide), le32_leBytes]

end Fields

end LibbpfBootstrap.Sockfilter
