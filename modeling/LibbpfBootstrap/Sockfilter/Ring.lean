import LibbpfBootstrap.Kernel.Runs
import LibbpfBootstrap.Sockfilter.Handler

/-! The filter program over whole runs: frames arrive in any order and number,
and any reservation may fail. The ring of the program is a whole number of
reservations long, so its bytes amount to the list of records submitted so far.
The three bytes of `ip_proto` that no store reaches therefore stay as the kernel
made them, zero, on every lap, and one stored byte is the whole field. -/

namespace LibbpfBootstrap.Sockfilter

open Kernel

/-- A frame, and the kernel's answer should the program ask for a record. -/
structure Arrival where
  skb : Skb
  granted : Option RingBuf.Header

def arrive (rb : RingBuf) (a : Arrival) : RingBuf × List Submission := (socketHandler a.skb a.granted rb).1

/-- The ring after some arrivals. -/
def after (arrivals : List Arrival) : RingBuf := Runs.final arrive RingBuf.empty arrivals

/-- Every record ever submitted along some arrivals. -/
def submitted (arrivals : List Arrival) : List Submission := Runs.outputs arrive RingBuf.empty arrivals

/-- The program asks for a record: the frame is IPv4 and no fragment. -/
def Skb.Wanted (skb : Skb) : Prop :=
  ntohs (le16 (skb.loadBytes 12 2)) = ethPIp ∧ ipIsFragment skb ethHlen = 0#16

instance (skb : Skb) : Decidable skb.Wanted := inferInstanceAs (Decidable (_ ∧ _))

/-- The arrival leads to a record. -/
def Arrival.Submits (a : Arrival) : Prop := a.skb.Wanted ∧ a.granted.isSome

instance (a : Arrival) : Decidable a.Submits := inferInstanceAs (Decidable (_ ∧ _))

theorem arrive_of_not_submits {a : Arrival} (h : ¬ a.Submits) (rb : RingBuf) : arrive rb a = (rb, []) := by
  unfold arrive socketHandler
  split_ifs with h1 h2
  · rfl
  · rfl
  · cases hg : a.granted with
    | none => rfl
    | some header => exact absurd ⟨⟨not_not.mp h1, not_not.mp h2⟩, by rw [hg]; rfl⟩ h

theorem arrive_of_wanted {skb : Skb} (h : skb.Wanted) (header : RingBuf.Header) (rb : RingBuf) :
    arrive rb ⟨skb, some header⟩ =
      ((rb.submit ringSize header skb.fill).1,
        [⟨skb, (rb.submit ringSize header skb.fill).2.1, (rb.submit ringSize header skb.fill).2.2⟩]) := by
  unfold arrive socketHandler
  rw [if_neg (not_not.mpr h.1), if_neg (not_not.mpr h.2)]

/-! ### The ring as a list of records -/

/-- The reservations in one lap of the ring. -/
def slots : ℕ := 8192

theorem ringSize_eq : ringSize = RingBuf.stride 24 * slots := by decide

/-- What an arrival does to the records submitted so far. -/
def record (records : List SoEvent) (a : Arrival) : List SoEvent :=
  if a.Submits then records ++ [a.skb.fill (RingBuf.found slots records)] else records

/-- The records submitted along some arrivals, without a ring. -/
def records (arrivals : List Arrival) : List SoEvent := arrivals.foldl record []

@[simp] theorem records_concat (past : List Arrival) (a : Arrival) :
    records (past ++ [a]) = record (records past) a := List.foldl_concat _ _ _ _

/-- The bytes that the next reservation finds. -/
def foundAfter (past : List Arrival) : SoEvent := RingBuf.found slots (records past)

theorem arrive_refines {past : List Arrival} {rb : RingBuf} (h : RingBuf.Holds ringSize slots (records past) rb)
    (a : Arrival) :
    RingBuf.Holds ringSize slots (records (past ++ [a])) (arrive rb a).1 ∧
      (arrive rb a).2 =
        if a.Submits then [⟨a.skb, foundAfter past, a.skb.fill (foundAfter past)⟩] else [] := by
  rw [records_concat, record]
  by_cases hs : a.Submits
  · obtain ⟨skb, granted⟩ := a
    obtain ⟨header, rfl⟩ := Option.isSome_iff_exists.mp hs.2
    rw [arrive_of_wanted hs.1, if_pos hs, if_pos hs, RingBuf.submit_found ringSize_eq (by decide) h]
    exact ⟨RingBuf.holds_submit ringSize_eq (by decide) h header skb.fill, rfl⟩
  · rw [arrive_of_not_submits hs, if_neg hs, if_neg hs]
    exact ⟨h, rfl⟩

theorem holds_after (past : List Arrival) : RingBuf.Holds ringSize slots (records past) (after past) :=
  Runs.run_invariant (fun past rb => RingBuf.Holds ringSize slots (records past) rb) RingBuf.holds_empty
    (fun _ _ a h => (arrive_refines h a).1) past

/-- What an arrival submits, by the arrivals before it. -/
theorem arrive_after (past : List Arrival) (a : Arrival) :
    (arrive (after past) a).2 =
      if a.Submits then [⟨a.skb, foundAfter past, a.skb.fill (foundAfter past)⟩] else [] :=
  (arrive_refines (holds_after past) a).2

/-! ### The protocol field -/

theorem protoRest_found {rs : List SoEvent} (h : ∀ e ∈ rs, e.protoRest = [0, 0, 0]) :
    SoEvent.protoRest (RingBuf.found slots rs) = [0, 0, 0] := by
  rcases RingBuf.found_cases slots rs with hz | hm
  · rw [hz]
    rfl
  · exact h _ hm

theorem protoRest_of_mem (past : List Arrival) : ∀ e ∈ records past, e.protoRest = [0, 0, 0] := by
  induction past using List.reverseRecOn with
  | nil => exact fun e he => absurd he List.not_mem_nil
  | append_singleton past a ih =>
    intro e he
    rw [records_concat, record] at he
    split_ifs at he
    · rcases List.mem_append.mp he with he | he
      · exact ih e he
      · -- a new record keeps the three bytes it found, of an earlier record or of the new ring
        rw [List.mem_singleton.mp he, protoRest_fill]
        exact protoRest_found ih
    · exact ih e he

theorem protoRest_foundAfter (past : List Arrival) : (foundAfter past).protoRest = [0, 0, 0] :=
  protoRest_found (protoRest_of_mem past)

/-- The protocol of a submission is exact: the program filled the record from the
bytes it found, its comparison with GRE was decided by the protocol byte, so that the
addresses are those that were found if the byte is 47 and those of the frame if it is
not, and the consumer reads that byte. -/
structure ProtoExact (s : Submission) : Prop where
  filled : s.record = s.skb.fill s.found
  gre : (s.skb.storeProto s.found).ipProto = ipprotoGre ↔ s.skb.protocol = 47
  src : s.record.srcAddr =
    if s.skb.protocol = 47 then s.found.srcAddr else le32 (s.skb.loadBytes (ethHlen + 12) 4)
  dst : s.record.dstAddr =
    if s.skb.protocol = 47 then s.found.dstAddr else le32 (s.skb.loadBytes (ethHlen + 16) 4)
  rest : s.record.protoRest = [0, 0, 0]
  proto : s.record.ipProto = BitVec.ofNat 32 s.skb.protocol.toNat
  lt : s.record.ipProto.toNat < 256

theorem toNat_protocol (b : UInt8) : (BitVec.ofNat 32 b.toNat).toNat = b.toNat := by
  have := b.toNat_lt
  rw [BitVec.toNat_ofNat, Nat.mod_eq_of_lt (by omega)]

theorem protocol_eq_gre (b : UInt8) : BitVec.ofNat 32 b.toNat = ipprotoGre ↔ b = 47 := by
  rw [← BitVec.toNat_inj, toNat_protocol, ← UInt8.toNat_inj]
  rfl

theorem storeProto_eq_gre (skb : Skb) {e : SoEvent} (h : e.protoRest = [0, 0, 0]) :
    (skb.storeProto e).ipProto = ipprotoGre ↔ skb.protocol = 47 := by
  rw [ipProto_storeProto skb h, protocol_eq_gre]

theorem ipProto_fill_lt (skb : Skb) {e : SoEvent} (h : e.protoRest = [0, 0, 0]) :
    (skb.fill e).ipProto.toNat < 256 := by
  rw [ipProto_fill skb h, toNat_protocol]
  exact skb.protocol.toNat_lt

theorem protoExact_fill (skb : Skb) {e : SoEvent} (h : e.protoRest = [0, 0, 0]) :
    ProtoExact ⟨skb, e, skb.fill e⟩ where
  filled := rfl
  gre := storeProto_eq_gre skb h
  src := by
    split_ifs with hgre
    · exact srcAddr_fill_of_gre skb e ((storeProto_eq_gre skb h).mpr hgre)
    · exact srcAddr_fill skb e (mt (storeProto_eq_gre skb h).mp hgre)
  dst := by
    split_ifs with hgre
    · exact dstAddr_fill_of_gre skb e ((storeProto_eq_gre skb h).mpr hgre)
    · exact dstAddr_fill skb e (mt (storeProto_eq_gre skb h).mp hgre)
  rest := by rw [protoRest_fill, h]
  proto := ipProto_fill skb h
  lt := ipProto_fill_lt skb h

/-- Every record ever submitted carries the protocol byte of its frame in the
whole field, over any number of laps and any failures of reservations. -/
theorem submitted_protoExact (arrivals : List Arrival) (s : Submission) (hs : s ∈ submitted arrivals) :
    ProtoExact s := by
  obtain ⟨past, a, rest, -, ha⟩ := (Runs.mem_outputs arrive RingBuf.empty arrivals s).mp hs
  have hout := arrive_after past a
  rw [after] at hout
  rw [hout] at ha
  split_ifs at ha
  · rw [List.mem_singleton.mp ha]
    exact protoExact_fill a.skb (protoRest_foundAfter past)
  · exact absurd ha List.not_mem_nil

/-- A frame for this host with a plain IPv4 header. -/
def ipv4Frame (protocol : UInt8) (src : List UInt8) : Skb where
  data := [0, 0, 0, 0, 0, 0, 0, 0, 0, 0, 0, 0, 8, 0] ++ [0x45, 0, 0, 24, 0, 0, 0, 0, 64, protocol, 0, 0] ++ src ++
    [0, 0, 0, 0] ++ [0, 9, 0, 9]
  pktType := packetHost
  ifindex := 1#32

/-- A UDP frame that gets a record, then a GRE frame that first gets none. -/
def someFrames : List Arrival :=
  [⟨ipv4Frame 17 [1, 2, 3, 4], some fun _ => 0⟩, ⟨ipv4Frame 47 [5, 6, 7, 8], none⟩,
    ⟨ipv4Frame 47 [5, 6, 7, 8], some fun _ => 0⟩]

theorem submitted_protoExact_someFrames :
    ∃ s ∈ submitted someFrames, ProtoExact s ∧ s.skb.protocol = 47 := by
  have hout := arrive_after (someFrames.take 2) ⟨ipv4Frame 47 [5, 6, 7, 8], some fun _ => 0⟩
  rw [if_pos (by decide)] at hout
  have hs := (Runs.mem_outputs arrive RingBuf.empty someFrames _).mpr
    ⟨someFrames.take 2, _, [], rfl, hout.symm ▸ List.mem_singleton_self _⟩
  exact ⟨_, hs, submitted_protoExact someFrames _ hs, by decide⟩

end LibbpfBootstrap.Sockfilter
