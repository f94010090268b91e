import LibbpfBootstrap.Sockfilter.Truncation

/-! The decoding of a frame, from its bytes to the line on the screen. The program
copies fields of the frame into the record as they are, the callback turns them
from wire order into numbers, and `ltoa` writes them out. The composition shows
the fields of the IPv4 layout, where a load that does not lie in the frame as a
whole counts as zeros. -/

namespace LibbpfBootstrap.Sockfilter

open Kernel Libc

/-! ### The layout -/

/-- The number that bytes are in wire order. -/
def beNat (bs : List UInt8) : ℕ := bs.foldl (fun n b => n * 256 + b.toNat) 0

/-- The fields of an IPv4 frame that a line is about. -/
structure Layout where
  etherType : ℕ
  fragment : ℕ
  src : List UInt8
  dst : List UInt8
  srcPort : ℕ
  dstPort : ℕ

/-- The bytes from an offset on, with zeros behind the end of the frame. -/
def Skb.padded (skb : Skb) (off n : ℕ) : List UInt8 := (List.range n).map fun i => skb.data.getD (off + i) 0

/-- The layout of a frame that goes on with zeros behind its end. -/
def Layout.ofBytes (skb : Skb) : Layout :=
  let ihl := beNat (skb.padded 14 1) % 16
  { etherType := beNat (skb.padded 12 2)
    fragment := beNat (skb.padded 20 2)
    src := skb.padded 26 4
    dst := skb.padded 30 4
    srcPort := beNat (skb.padded (14 + 4 * ihl) 2)
    dstPort := beNat (skb.padded (14 + 4 * ihl + 2) 2) }

/-- The layout of a frame of which each load is there as a whole or reads as zeros;
the two ports are one load. -/
def Layout.ofLoads (skb : Skb) : Layout :=
  let ihl := beNat (skb.loadBytes 14 1) % 16
  { etherType := beNat (skb.loadBytes 12 2)
    fragment := beNat (skb.loadBytes 20 2)
    src := skb.loadBytes 26 4
    dst := skb.loadBytes 30 4
    srcPort := beNat ((skb.loadBytes (14 + 4 * ihl) 4).take 2)
    dstPort := beNat ((skb.loadBytes (14 + 4 * ihl) 4).drop 2) }

/-- Each load of the frame lies in it as a whole. -/
def Skb.Complete (skb : Skb) : Prop := ethHlen + 20 ≤ skb.data.length ∧ skb.portsOff + 4 ≤ skb.data.length

/-- IPv4, with neither the more-fragments bit nor an offset; the other two bits of the
fragment word do not matter. -/
def Layout.Whole (l : Layout) : Prop :=
  l.etherType = 0x0800 ∧ l.fragment.testBit 13 = false ∧ l.fragment % 2 ^ 13 = 0

/-- The line for a layout. -/
def Layout.line (l : Layout) (ifname : List UInt8) (protocol : UInt8) : List UInt8 :=
  ascii "interface: " ++ ifname ++ ascii "\tprotocol: " ++ strOrNull (ipprotoMapping protocol.toNat) ++ ascii "\t" ++
    (dotted l.src ++ (ascii ":" ++ decimal l.srcPort ++ ascii "(src) -> " ++
      (dotted l.dst ++ (ascii ":" ++ decimal l.dstPort ++ ascii "(dst)\n"))))

/-- A frame is decoded as a layout says, from whatever the ring holds: it gets a record
exactly if the layout is that of a whole IPv4 packet, and its line is that of the
layout if it is not GRE, is for this host, comes in on an interface with a name,
and the field `ip_proto` holds the protocol byte. -/
structure Decodes (ifIndextoname : BitVec 32 → Option (List UInt8)) (skb : Skb) (l : Layout) : Prop where
  submits : ∀ rb header, (arrive rb ⟨skb, some header⟩).2 ≠ [] ↔ l.Whole
  prints : ∀ rb header, ∀ s ∈ (arrive rb ⟨skb, some header⟩).2,
    s.record.ipProto = BitVec.ofNat 32 skb.protocol.toNat → skb.protocol ≠ 47 → skb.pktType = packetHost →
    ∀ name, ifIndextoname skb.ifindex = some name →
      handleEvent ifIndextoname s.record = some (l.line name skb.protocol)

/-! ### Byte order -/

theorem toNat_append_byte {w : ℕ} (x : BitVec w) (y : BitVec 8) : (x ++ y).toNat = x.toNat * 256 + y.toNat := by
  rw [BitVec.toNat_append, ← Nat.shiftLeft_add_eq_or_of_lt y.isLt, Nat.shiftLeft_eq]

theorem toNat_ntohs (x : BitVec 16) : (ntohs x).toNat = x.toNat % 256 * 256 + x.toNat / 256 := by
  have := x.isLt
  simp only [ntohs, toNat_append_byte, BitVec.extractLsb'_toNat, Nat.shiftRight_eq_div_pow]
  omega

theorem toNat_ntohl (x : BitVec 32) :
    (ntohl x).toNat = ((x.toNat % 256 * 256 + x.toNat / 256 % 256) * 256 + x.toNat / 65536 % 256) * 256 +
      x.toNat / 16777216 := by
  have := x.isLt
  simp only [ntohl, toNat_append_byte, BitVec.extractLsb'_toNat, Nat.shiftRight_eq_div_pow, Nat.reducePow,
    Nat.div_one]
  omega

/-- A little-endian load turned around is the number in wire order. -/
theorem ntohs_le16 {bs : List UInt8} (h : bs.length = 2) : (ntohs (le16 bs)).toNat = beNat bs := by
  obtain ⟨a, b, rfl⟩ := List.length_eq_two.mp h
  have ha := a.toNat_lt
  have hb := b.toNat_lt
  simp only [toNat_ntohs, le16, leNat, beNat, BitVec.toNat_ofNat, List.foldl_cons, List.foldl_nil]
  omega

theorem ntohl_le32 {bs : List UInt8} (h : bs.length = 4) : (ntohl (le32 bs)).toNat = beNat bs := by
  obtain ⟨a, b, c, d, rfl⟩ := List.length_eq_four.mp h
  have ha := a.toNat_lt
  have hb := b.toNat_lt
  have hc := c.toNat_lt
  have hd := d.toNat_lt
  have hn : (le32 [a, b, c, d]).toNat = a.toNat + 256 * (b.toNat + 256 * (c.toNat + 256 * d.toNat)) := by
    rw [le32, BitVec.toNat_ofNat, Nat.mod_eq_of_lt (by simp only [leNat]; omega)]
    rfl
  rw [toNat_ntohl]
  generalize (le32 [a, b, c, d]).toNat = n at hn
  rw [show n % 256 = a.toNat by omega, show n / 256 % 256 = b.toNat by omega,
    show n / 65536 % 256 = c.toNat by omega, show n / 16777216 = d.toNat by omega]
  simp only [beNat, List.foldl_cons, List.foldl_nil, Nat.zero_mul, Nat.zero_add]

/-! ### Addresses -/

/-- A byte of a number, as `ltoa` takes it out. -/
theorem toNat_shift_and (x : BitVec 32) (n : ℕ) : ((x >>> n) &&& 0xFF#32).toNat = x.toNat / 2 ^ n % 256 := by
  have hmask : (0xFF#32).toNat = 2 ^ 8 - 1 := by decide
  rw [BitVec.toNat_and, BitVec.toNat_ushiftRight, hmask, Nat.and_two_pow_sub_one_eq_mod, Nat.shiftRight_eq_div_pow]

theorem ltoa_le32 {bs : List UInt8} (h : bs.length = 4) : ltoa (ntohl (le32 bs)) = dotted bs := by
  have hn := ntohl_le32 h
  obtain ⟨a, b, c, d, rfl⟩ := List.length_eq_four.mp h
  have ha := a.toNat_lt
  have hb := b.toNat_lt
  have hc := c.toNat_lt
  have hd := d.toNat_lt
  simp only [beNat, List.foldl_cons, List.foldl_nil] at hn
  have h0 : ntohl (le32 [a, b, c, d]) &&& 0xFF#32 = ntohl (le32 [a, b, c, d]) >>> 0 &&& 0xFF#32 := by simp
  unfold ltoa
  rw [h0, toNat_shift_and, toNat_shift_and, toNat_shift_and, toNat_shift_and, hn]
  rw [show ((((0 * 256 + a.toNat) * 256 + b.toNat) * 256 + c.toNat) * 256 + d.toNat) / 2 ^ 24 % 256 = a.toNat by omega,
    show ((((0 * 256 + a.toNat) * 256 + b.toNat) * 256 + c.toNat) * 256 + d.toNat) / 2 ^ 16 % 256 = b.toNat by omega,
    show ((((0 * 256 + a.toNat) * 256 + b.toNat) * 256 + c.toNat) * 256 + d.toNat) / 2 ^ 8 % 256 = c.toNat by omega,
    show ((((0 * 256 + a.toNat) * 256 + b.toNat) * 256 + c.toNat) * 256 + d.toNat) / 2 ^ 0 % 256 = d.toNat by omega,
    ← dotted_four]
  exact List.take_of_length_le (length_dotted_four a b c d)

/-! ### The program -/

theorem portsOff_eq (skb : Skb) : skb.portsOff = 14 + 4 * (beNat (skb.loadBytes 14 1) % 16) := by
  obtain ⟨b, hb⟩ := List.length_eq_one_iff.mp (skb.length_loadBytes 14 1)
  have hmask : (0xF : ℕ) = 2 ^ 4 - 1 := rfl
  simp only [Skb.portsOff, ethHlen, hb, leNat, beNat, List.foldl_cons, List.foldl_nil]
  rw [hmask, Nat.and_two_pow_sub_one_eq_mod, Nat.shiftLeft_eq]
  omega

theorem loadBytes_eq_padded {skb : Skb} (off n : ℕ) (h : off + n ≤ skb.data.length) :
    skb.loadBytes off n = skb.padded off n := by
  refine List.ext_getElem (by simp [Skb.padded]) fun i hi _ => ?_
  have hlt : off + i < skb.data.length := by
    rw [skb.length_loadBytes] at hi
    omega
  simp only [loadBytes_of_le off n h, Skb.bytes, Skb.padded, List.getElem_take, List.getElem_drop, List.getElem_map,
    List.getElem_range, List.getD_eq_getElem _ _ hlt]

/-- The two readings of a frame are one where nothing is cut off. -/
theorem ofLoads_eq_ofBytes {skb : Skb} (h : skb.Complete) : Layout.ofLoads skb = Layout.ofBytes skb := by
  have hlen : 34 ≤ skb.data.length := h.1
  have hports := h.2
  have hihl : skb.loadBytes 14 1 = skb.padded 14 1 := loadBytes_eq_padded 14 1 (by omega)
  rw [portsOff_eq] at hports
  simp only [Layout.ofLoads, Layout.ofBytes, loadBytes_eq_padded _ _ hports]
  rw [hihl, loadBytes_eq_padded 12 2 (by omega), loadBytes_eq_padded 20 2 (by omega),
    loadBytes_eq_padded 26 4 (by omega), loadBytes_eq_padded 30 4 (by omega)]
  rfl

theorem ipIsFragment_eq_zero (skb : Skb) :
    ipIsFragment skb ethHlen = 0#16 ↔ beNat (skb.loadBytes 20 2) % 2 ^ 14 = 0 := by
  have hmask : (ipMf ||| ipOffset).toNat = 2 ^ 14 - 1 := by decide
  rw [ipIsFragment, ← BitVec.toNat_inj, BitVec.toNat_and, hmask, Nat.and_two_pow_sub_one_eq_mod,
    ntohs_le16 (skb.length_loadBytes _ _)]
  rfl

theorem wanted_iff (skb : Skb) : skb.Wanted ↔ (Layout.ofLoads skb).Whole := by
  have htype : ntohs (le16 (skb.loadBytes 12 2)) = ethPIp ↔ beNat (skb.loadBytes 12 2) = 0x0800 := by
    rw [← BitVec.toNat_inj, ntohs_le16 (skb.length_loadBytes _ _)]
    rfl
  rw [Skb.Wanted, htype, ipIsFragment_eq_zero]
  simp only [Layout.Whole, Layout.ofLoads, Nat.testBit_eq_decide_div_mod_eq, decide_eq_false_iff_not]
  refine and_congr_right fun _ => ?_
  omega

theorem arrive_ne_nil {skb : Skb} (rb : RingBuf) (header : RingBuf.Header) :
    (arrive rb ⟨skb, some header⟩).2 ≠ [] ↔ skb.Wanted := by
  by_cases hw : skb.Wanted
  · simp [arrive_of_wanted hw, hw]
  · simp [arrive_of_not_submits (a := ⟨skb, some header⟩) fun hc => hw hc.1, hw]

/-- The comparison with GRE and the callback see the same protocol. -/
theorem ipProto_fill_eq (skb : Skb) (e : SoEvent) : (skb.fill e).ipProto = (skb.storeProto e).ipProto := by
  rw [SoEvent.ipProto, SoEvent.ipProto, peek_fill_proto, peek_storeProto]

theorem eventLine_layout {skb : Skb} {e : SoEvent} (h : (skb.fill e).ipProto = BitVec.ofNat 32 skb.protocol.toNat)
    (hne : skb.protocol ≠ 47) (name : List UInt8) :
    eventLine name (skb.fill e) = (Layout.ofLoads skb).line name skb.protocol := by
  have hg : (skb.storeProto e).ipProto ≠ ipprotoGre := by
    rw [← ipProto_fill_eq, h]
    exact fun hc => hne ((protocol_eq_gre skb.protocol).mp hc)
  have hlen := skb.length_loadBytes skb.portsOff 4
  have hsrc : ltoa (ntohl (skb.fill e).srcAddr) = dotted (skb.loadBytes 26 4) := by
    rw [srcAddr_fill skb e hg, ltoa_le32 (skb.length_loadBytes _ _)]
    rfl
  have hdst : ltoa (ntohl (skb.fill e).dstAddr) = dotted (skb.loadBytes 30 4) := by
    rw [dstAddr_fill skb e hg, ltoa_le32 (skb.length_loadBytes _ _)]
    rfl
  have hport0 : (ntohs ((skb.fill e).port16 0)).toNat = (Layout.ofLoads skb).srcPort := by
    rw [SoEvent.port16, peek_fill_ports, ntohs_le16 (by simp), Nat.mul_zero, List.drop_zero, portsOff_eq]
    rfl
  have hport1 : (ntohs ((skb.fill e).port16 1)).toNat = (Layout.ofLoads skb).dstPort := by
    rw [SoEvent.port16, peek_fill_ports, ntohs_le16 (by simp), List.take_of_length_le (by simp), portsOff_eq]
    rfl
  rw [eventLine, hsrc, hdst, hport0, hport1, h, toNat_protocol]
  rfl

theorem decodes_ofLoads (ifIndextoname : BitVec 32 → Option (List UInt8)) (skb : Skb) :
    Decodes ifIndextoname skb (.ofLoads skb) := by
  refine ⟨fun rb header => (arrive_ne_nil rb header).trans (wanted_iff skb), ?_⟩
  intro rb header s hs hproto hne hp name hname
  have hw := (arrive_ne_nil rb header).mp (List.ne_nil_of_mem hs)
  rw [arrive_of_wanted hw, List.mem_singleton] at hs
  subst hs
  have hlt : (SoEvent.ipProto (rb.submit ringSize header skb.fill).2.2).toNat < 256 := by
    rw [hproto, toNat_protocol]
    exact skb.protocol.toNat_lt
  refine (handleEvent_fill_of_lt ifIndextoname skb hlt).trans ?_
  rw [if_pos hp, hname, Option.map_some]
  exact congrArg some (eventLine_layout hproto hne name)

/-- Every frame is decoded as its loads say, and one that is not cut off as its bytes
say. -/
theorem decodes_layout (ifIndextoname : BitVec 32 → Option (List UInt8)) (skb : Skb) :
    Decodes ifIndextoname skb (.ofLoads skb) ∧ (skb.Complete → Decodes ifIndextoname skb (.ofBytes skb)) := by
  have h := decodes_ofLoads ifIndextoname skb
  refine ⟨h, fun hc => ?_⟩
  rw [← ofLoads_eq_ofBytes hc]
  exact h

theorem decodes_layout_udp : Decodes loopback (ipv4Frame 17 [5, 6, 7, 8]) (.ofBytes (ipv4Frame 17 [5, 6, 7, 8])) :=
  (decodes_layout loopback _).2 (by unfold Skb.Complete; decide)

/-- A UDP frame that ends between its two ports. -/
def cutUdp : Skb where
  data := [0, 0, 0, 0, 0, 0, 0, 0, 0, 0, 0, 0, 8, 0] ++ [0x45, 0, 0, 22, 0, 0, 0, 0, 64, 17, 0, 0] ++ [1, 2, 3, 4] ++
    [5, 6, 7, 8] ++ [0, 9]
  pktType := packetHost
  ifindex := 1#32

/-- Its source port 9 is in the frame, yet the load of both ports fails and 0 is shown. -/
theorem cutUdp_not_decoded_as_bytes :
    (Layout.ofBytes cutUdp).srcPort = 9 ∧
      printed loopback [] cutUdp (fun _ => 0) =
        some (ascii "interface: lo\tprotocol: UDP\t1.2.3.4:0(src) -> 5.6.7.8:0(dst)\n") ∧
      ¬ Decodes loopback cutUdp (.ofBytes cutUdp) := by
  have hw : cutUdp.Wanted := by decide
  have hline : handleEvent loopback (cutUdp.fill fun _ => 0) =
      some (ascii "interface: lo\tprotocol: UDP\t1.2.3.4:0(src) -> 5.6.7.8:0(dst)\n") := by decide
  refine ⟨by decide, ?_, fun h => ?_⟩
  · rw [printed_of_wanted _ hw, foundAfter_nil, hline]
  · have hs := (mem_arrive_of_wanted hw [] (fun _ => 0) _).mpr rfl
    rw [foundAfter_nil] at hs
    have hprinted := h.prints _ _ _ hs (by decide) (by decide) rfl (ascii "lo") rfl
    rw [hline] at hprinted
    exact absurd hprinted (by decide)

end LibbpfBootstrap.Sockfilter
