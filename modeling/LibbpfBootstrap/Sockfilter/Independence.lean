import LibbpfBootstrap.Sockfilter.Ring

/-! Does the line printed for a frame tell anything about the frames before it?
Two runs are compared that end in the same frame. Every field but the addresses
is written in full, or is completed by bytes that are always zero; the addresses
are not written for GRE, and then the line shows what the record one lap earlier
held. So the lines agree for every frame that is not printed, and for every
printed frame but GRE, and for no other. -/

namespace LibbpfBootstrap.Sockfilter

open Kernel Libc

variable (ifIndextoname : BitVec 32 → Option (List UInt8))

/-- What is printed for a frame that arrives after others and whose reservation
succeeds, if the program asks for one. -/
def printed (past : List Arrival) (skb : Skb) (header : RingBuf.Header) : Option (List UInt8) :=
  (arrive (after past) ⟨skb, some header⟩).2.head?.bind fun s => handleEvent ifIndextoname s.record

/-- The line of a frame is the same after any two histories. -/
def Independent (skb : Skb) : Prop :=
  ∀ past past' header header', printed ifIndextoname past skb header = printed ifIndextoname past' skb header'

/-- An unfragmented IPv4 frame for this host that carries GRE, on an interface with a name. -/
def PrintedGre (skb : Skb) : Prop :=
  skb.Wanted ∧ skb.protocol = 47 ∧ skb.pktType = packetHost ∧ (ifIndextoname skb.ifindex).isSome

instance (skb : Skb) : Decidable (PrintedGre ifIndextoname skb) := inferInstanceAs (Decidable (_ ∧ _))

theorem printed_of_wanted {skb : Skb} (h : skb.Wanted) (past : List Arrival) (header : RingBuf.Header) :
    printed ifIndextoname past skb header = handleEvent ifIndextoname (skb.fill (foundAfter past)) := by
  rw [printed, arrive_after, if_pos ⟨h, rfl⟩]
  rfl

theorem printed_of_not_wanted {skb : Skb} (h : ¬ skb.Wanted) (past : List Arrival) (header : RingBuf.Header) :
    printed ifIndextoname past skb header = none := by
  rw [printed, arrive_after, if_neg fun hs => h hs.1]
  rfl

/-- The checks of the callback, for a protocol of one byte. -/
theorem handleEvent_fill_of_lt (skb : Skb) {e : SoEvent} (h : (skb.fill e).ipProto.toNat < 256) :
    handleEvent ifIndextoname (skb.fill e) =
      if skb.pktType = packetHost then (ifIndextoname skb.ifindex).map fun name => eventLine name (skb.fill e)
      else none := by
  have hlt : ¬ ipprotoMax ≤ (skb.fill e).ipProto.toNat := by
    unfold ipprotoMax
    omega
  unfold handleEvent
  rw [pktType_fill, ifindex_fill, if_neg hlt]
  by_cases hp : skb.pktType = packetHost
  · rw [if_neg (not_not.mpr hp), if_pos hp]
    cases ifIndextoname skb.ifindex <;> rfl
  · rw [if_pos hp, if_neg hp]

/-- They depend on the frame alone. -/
theorem handleEvent_fill (skb : Skb) {e : SoEvent} (h : e.protoRest = [0, 0, 0]) :
    handleEvent ifIndextoname (skb.fill e) =
      if skb.pktType = packetHost then (ifIndextoname skb.ifindex).map fun name => eventLine name (skb.fill e)
      else none := handleEvent_fill_of_lt ifIndextoname skb (ipProto_fill_lt skb h)

theorem eventLine_congr {e e' : SoEvent} (name : List UInt8) (hsrc : e.srcAddr = e'.srcAddr)
    (hdst : e.dstAddr = e'.dstAddr) (hports : e.peek 8 4 = e'.peek 8 4) (hproto : e.ipProto = e'.ipProto) :
    eventLine name e = eventLine name e' := by
  simp only [eventLine, SoEvent.port16, hsrc, hdst, hports, hproto]

/-- Apart from GRE, the line depends on the frame alone. -/
theorem eventLine_fill {skb : Skb} (hne : skb.protocol ≠ 47) (name : List UInt8) {e e' : SoEvent}
    (h : e.protoRest = [0, 0, 0]) (h' : e'.protoRest = [0, 0, 0]) :
    eventLine name (skb.fill e) = eventLine name (skb.fill e') := by
  have hg : (skb.storeProto e).ipProto ≠ ipprotoGre := fun hc => hne ((storeProto_eq_gre skb h).mp hc)
  have hg' : (skb.storeProto e').ipProto ≠ ipprotoGre := fun hc => hne ((storeProto_eq_gre skb h').mp hc)
  apply eventLine_congr
  · rw [srcAddr_fill _ _ hg, srcAddr_fill _ _ hg']
  · rw [dstAddr_fill _ _ hg, dstAddr_fill _ _ hg']
  · rw [peek_fill_ports, peek_fill_ports]
  · rw [ipProto_fill _ h, ipProto_fill _ h']

theorem independent_of_not_printedGre {skb : Skb} (h : ¬ PrintedGre ifIndextoname skb) :
    Independent ifIndextoname skb := by
  intro past past' header header'
  by_cases hw : skb.Wanted
  · rw [printed_of_wanted _ hw, printed_of_wanted _ hw, handleEvent_fill _ _ (protoRest_foundAfter past),
      handleEvent_fill _ _ (protoRest_foundAfter past')]
    split_ifs with hp
    · cases hname : ifIndextoname skb.ifindex with
      | none => rw [Option.map_none, Option.map_none]
      | some name =>
        have hne : skb.protocol ≠ 47 := fun hg => h ⟨hw, hg, hp, by rw [hname]; rfl⟩
        rw [Option.map_some, Option.map_some,
          eventLine_fill hne name (protoRest_foundAfter past) (protoRest_foundAfter past')]
    · rfl
  · rw [printed_of_not_wanted _ hw, printed_of_not_wanted _ hw]

/-! ### A lap of other frames -/

/-- A lap of frames from one source. -/
def lap (src : List UInt8) : List Arrival := List.replicate slots ⟨ipv4Frame 17 src, some fun _ => 0⟩

/-- On the first lap every reservation finds zeros. -/
theorem records_replicate {a : Arrival} (ha : a.Submits) {n : ℕ} (hn : n ≤ slots) :
    records (List.replicate n a) = List.replicate n (a.skb.fill fun _ => 0) := by
  induction n with
  | zero => rfl
  | succ n ih =>
    have hfound : RingBuf.found slots (List.replicate n (a.skb.fill fun _ => 0)) = fun _ => 0 :=
      if_pos (by rw [List.length_replicate]; exact hn)
    rw [List.replicate_succ', records_concat, ih (Nat.le_of_succ_le hn), record, if_pos ha, hfound,
      List.replicate_succ']

theorem foundAfter_replicate {a : Arrival} (ha : a.Submits) :
    foundAfter (List.replicate slots a) = a.skb.fill fun _ => 0 := by
  rw [foundAfter, records_replicate ha le_rfl, RingBuf.found, RingBuf.foundAt, List.length_replicate,
    if_neg (Nat.lt_irrefl _), Nat.sub_self, List.getD_replicate _ (by decide)]

theorem foundAfter_nil : foundAfter [] = fun _ => 0 := by
  rw [foundAfter, RingBuf.found, RingBuf.foundAt, if_pos (by decide)]

/-- After a lap of frames from 1.2.3.4 the next record still holds that source. -/
theorem foundAfter_lap : foundAfter (lap [1, 2, 3, 4]) = (ipv4Frame 17 [1, 2, 3, 4]).fill fun _ => 0 :=
  foundAfter_replicate (by decide)

theorem lap_not_gre : ((ipv4Frame 17 [1, 2, 3, 4]).storeProto fun _ => 0).ipProto ≠ ipprotoGre := by decide

theorem dstAddr_lap : (foundAfter (lap [1, 2, 3, 4])).dstAddr = 0#32 := by
  rw [foundAfter_lap, dstAddr_fill _ _ lap_not_gre]
  decide

theorem srcAddr_lap : (foundAfter (lap [1, 2, 3, 4])).srcAddr = 0x04030201#32 := by
  rw [foundAfter_lap, srcAddr_fill _ _ lap_not_gre]
  decide

/-- A line determines the source address it shows, if the rest is the same. -/
theorem eventLine_src {e e' : SoEvent} {name : List UInt8} (h : eventLine name e = eventLine name e')
    (hdst : e.dstAddr = e'.dstAddr) (hports : e.peek 8 4 = e'.peek 8 4) (hproto : e.ipProto = e'.ipProto) :
    ltoa (ntohl e.srcAddr) = ltoa (ntohl e'.srcAddr) := by
  simp only [eventLine, SoEvent.port16, hdst, hports, hproto] at h
  exact List.append_cancel_right (List.append_cancel_left h)

/-- The GRE line shows a source address of one lap ago. -/
theorem gre_lines_differ {skb : Skb} (h : PrintedGre ifIndextoname skb) (header : RingBuf.Header) :
    printed ifIndextoname [] skb header ≠ printed ifIndextoname (lap [1, 2, 3, 4]) skb header := by
  obtain ⟨hw, hg, hp, hn⟩ := h
  obtain ⟨name, hname⟩ := Option.isSome_iff_exists.mp hn
  have h0 := protoRest_foundAfter []
  have h1 := protoRest_foundAfter (lap [1, 2, 3, 4])
  rw [printed_of_wanted _ hw, printed_of_wanted _ hw, handleEvent_fill _ _ h0, handleEvent_fill _ _ h1, if_pos hp,
    if_pos hp, hname, Option.map_some, Option.map_some]
  intro hline
  have hg0 := (storeProto_eq_gre skb h0).mpr hg
  have hg1 := (storeProto_eq_gre skb h1).mpr hg
  have hdst : (skb.fill (foundAfter [])).dstAddr = (skb.fill (foundAfter (lap [1, 2, 3, 4]))).dstAddr := by
    rw [dstAddr_fill_of_gre _ _ hg0, dstAddr_fill_of_gre _ _ hg1, dstAddr_lap, foundAfter_nil]
    decide
  have hsrc := eventLine_src (Option.some.inj hline) hdst (by rw [peek_fill_ports, peek_fill_ports])
    (by rw [ipProto_fill _ h0, ipProto_fill _ h1])
  rw [srcAddr_fill_of_gre _ _ hg0, srcAddr_fill_of_gre _ _ hg1, srcAddr_lap, foundAfter_nil] at hsrc
  exact absurd hsrc (by decide)

/-- The line printed for a frame is a function of the frame alone exactly when the
frame is not a printed GRE frame. -/
theorem independent_iff (skb : Skb) : Independent ifIndextoname skb ↔ ¬ PrintedGre ifIndextoname skb := by
  constructor
  · intro h hgre
    exact gre_lines_differ ifIndextoname hgre (fun _ => 0) (h [] (lap [1, 2, 3, 4]) (fun _ => 0) fun _ => 0)
  · exact independent_of_not_printedGre ifIndextoname

/-- The names of a machine with the loopback interface only. -/
def loopback (ifindex : BitVec 32) : Option (List UInt8) := if ifindex = 1#32 then some (ascii "lo") else none

theorem independent_udp : Independent loopback (ipv4Frame 17 [5, 6, 7, 8]) :=
  (independent_iff loopback _).mpr (by decide)

/-- A GRE frame from 5.6.7.8 shows no source at first, and 1.2.3.4 after a lap of
frames from there. -/
theorem not_independent_gre :
    ¬ Independent loopback (ipv4Frame 47 [5, 6, 7, 8]) := by
  intro h
  exact gre_lines_differ loopback (by decide) (fun _ => 0) (h [] (lap [1, 2, 3, 4]) (fun _ => 0) fun _ => 0)

end LibbpfBootstrap.Sockfilter
