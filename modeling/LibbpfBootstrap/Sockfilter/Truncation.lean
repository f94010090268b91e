import LibbpfBootstrap.Sockfilter.Independence

/-! Frames that are too short. The program ignores the result of every load, and
the zeros that a failed one leaves are legal values for the tests that follow: a
fragment word of zero is no fragment. So every frame that has an Ethernet header
of type IPv4 and ends before its fragment word gets a record. -/

namespace LibbpfBootstrap.Sockfilter

open Kernel Libc

/-- The bytes of a frame from an offset on, as many as there are of `n`. -/
def Skb.bytes (skb : Skb) (off n : ℕ) : List UInt8 := (skb.data.drop off).take n

/-- What a record reports is in the frame: the frame has a whole IPv4 header, and the
protocol and the two addresses are bytes of it. -/
structure FromFrame (skb : Skb) (e : SoEvent) : Prop where
  header : ethHlen + 20 ≤ skb.data.length
  proto : e.ipProto = le32 (skb.bytes 23 1)
  src : e.srcAddr = le32 (skb.bytes 26 4)
  dst : e.dstAddr = le32 (skb.bytes 30 4)

/-- Whatever came before, a record of the frame reports bytes of the frame. -/
def ReportsFrame (skb : Skb) : Prop :=
  ∀ past header, ∀ s ∈ (arrive (after past) ⟨skb, some header⟩).2, FromFrame skb s.record

theorem mem_arrive_of_wanted {skb : Skb} (h : skb.Wanted) (past : List Arrival) (header : RingBuf.Header)
    (s : Submission) :
    s ∈ (arrive (after past) ⟨skb, some header⟩).2 ↔ s = ⟨skb, foundAfter past, skb.fill (foundAfter past)⟩ := by
  rw [arrive_after, if_pos ⟨h, rfl⟩, List.mem_singleton]

theorem loadBytes_of_le {skb : Skb} (off n : ℕ) (h : off + n ≤ skb.data.length) :
    skb.loadBytes off n = skb.bytes off n := if_pos h

theorem fromFrame_fill {skb : Skb} (hlen : ethHlen + 20 ≤ skb.data.length) (hne : skb.protocol ≠ 47) {e : SoEvent}
    (h : e.protoRest = [0, 0, 0]) : FromFrame skb (skb.fill e) := by
  have hg : (skb.storeProto e).ipProto ≠ ipprotoGre := fun hc => hne ((storeProto_eq_gre skb h).mp hc)
  refine ⟨hlen, ?_, ?_, ?_⟩
  · have hp := loadBytes_protocol skb
    rw [loadBytes_of_le (ethHlen + 9) 1 (by omega)] at hp
    have hp : skb.bytes 23 1 = [skb.protocol] := hp
    rw [ipProto_fill skb h, hp]
    rfl
  · rw [srcAddr_fill skb e hg, loadBytes_of_le (ethHlen + 12) 4 (by omega)]
    rfl
  · rw [dstAddr_fill skb e hg, loadBytes_of_le (ethHlen + 16) 4 (by omega)]
    rfl

/-- For GRE the source is what the ring held, and the ring can have held two values. -/
theorem not_reportsFrame_of_gre {skb : Skb} (hw : skb.Wanted) (hg : skb.protocol = 47) : ¬ ReportsFrame skb := by
  intro h
  have hsrc (past : List Arrival) : (foundAfter past).srcAddr = le32 (skb.bytes 26 4) := by
    have hs := (h past (fun _ => 0) _ ((mem_arrive_of_wanted hw past _ _).mpr rfl)).src
    rwa [srcAddr_fill_of_gre _ _ ((storeProto_eq_gre skb (protoRest_foundAfter past)).mpr hg)] at hs
  have h0 := (hsrc []).trans (hsrc (lap [1, 2, 3, 4])).symm
  rw [srcAddr_lap, foundAfter_nil] at h0
  exact absurd h0 (by decide)

theorem header_of_reportsFrame {skb : Skb} (hw : skb.Wanted) (h : ReportsFrame skb) :
    ethHlen + 20 ≤ skb.data.length :=
  (h [] (fun _ => 0) _ ((mem_arrive_of_wanted hw [] _ _).mpr rfl)).header

/-- A frame is reported from its own bytes alone exactly when, if it gets a record at
all, it has a whole IPv4 header and is not GRE. -/
theorem reportsFrame_iff (skb : Skb) :
    ReportsFrame skb ↔ (skb.Wanted → ethHlen + 20 ≤ skb.data.length ∧ skb.protocol ≠ 47) := by
  constructor
  · intro h hw
    exact ⟨header_of_reportsFrame hw h, fun hg => not_reportsFrame_of_gre hw hg h⟩
  · intro h past header s hs
    by_cases hw : skb.Wanted
    · obtain ⟨hlen, hne⟩ := h hw
      rw [(mem_arrive_of_wanted hw past header s).mp hs]
      exact fromFrame_fill hlen hne (protoRest_foundAfter past)
    · rw [arrive_after, if_neg fun hc => hw hc.1] at hs
      exact absurd hs List.not_mem_nil

/-- An Ethernet header of type IPv4 and nothing behind it. -/
def headerOnly : Skb where
  data := [0, 0, 0, 0, 0, 0, 0, 0, 0, 0, 0, 0, 8, 0]
  pktType := packetHost
  ifindex := 1#32

/-- Fourteen bytes get a record about an IP packet from 0.0.0.0 to 0.0.0.0. -/
theorem headerOnly_reported :
    ¬ ReportsFrame headerOnly ∧
      printed loopback [] headerOnly (fun _ => 0) =
        some (ascii "interface: lo\tprotocol: IP\t0.0.0.0:0(src) -> 0.0.0.0:0(dst)\n") := by
  have hw : headerOnly.Wanted := by decide
  refine ⟨fun h => absurd (header_of_reportsFrame hw h) (by decide), ?_⟩
  rw [printed_of_wanted _ hw, foundAfter_nil]
  decide

end LibbpfBootstrap.Sockfilter
