import LibbpfBootstrap.Sockfilter.Decode
import LibbpfBootstrap.Tc.Filters

/-! The program that `tc.c` puts on the hook, and the packets that pass it. The program
reads the packet through pointers; a read that is not inside the packet has no value. -/

namespace LibbpfBootstrap.Tc

open Kernel.Runs Libc Sockfilter

/-- As much of `struct __sk_buff` as the program reads, and the bytes between `data` and
`data_end`. -/
structure SkBuff where
  protocol : BitVec 32
  data : BitVec 32
  bytes : List UInt8
  fits : data.toNat + bytes.length < 2 ^ 32

namespace SkBuff

variable (ctx : SkBuff)

def dataEnd : BitVec 32 := ctx.data + BitVec.ofNat 32 ctx.bytes.length

/-- The `n` bytes at a pointer. -/
def load (p : BitVec 64) (n : ℕ) : Option (List UInt8) :=
  if ctx.data.toNat ≤ p.toNat ∧ p.toNat + n ≤ ctx.dataEnd.toNat then
    some ((ctx.bytes.drop (p.toNat - ctx.data.toNat)).take n)
  else none

end SkBuff

def tcActOk : BitVec 32 := 0#32

/-- `bpf_htons(ETH_P_IP)`, an `int` in the comparison with the protocol. -/
def htonsEthPIp : BitVec 32 := (ntohs ethPIp).setWidth 32

def gotIpPacket (totLen : BitVec 16) (ttl : UInt8) : List UInt8 :=
  ascii "Got IP packet: tot_len: " ++ decimal totLen.toNat ++ ascii ", ttl: " ++ decimal ttl.toNat

/-- `tc_ingress`: the verdict and the lines; nothing if a read is not inside the packet. -/
def tcIngress (ctx : SkBuff) : Option (BitVec 32 × List (List UInt8)) :=
  let dataEnd := ctx.dataEnd.setWidth 64
  let data := ctx.data.setWidth 64
  if ctx.protocol ≠ htonsEthPIp then some (tcActOk, [])
  else
    let l2 := data
    if l2 + 14#64 > dataEnd then some (tcActOk, [])
    else
      let l3 := l2 + 14#64
      if l3 + 20#64 > dataEnd then some (tcActOk, [])
      else do
        let totLen ← ctx.load (l3 + 2#64) 2
        let ttl ← ctx.load (l3 + 8#64) 1
        return (tcActOk, [gotIpPacket (ntohs (le16 totLen)) (ttl.headD 0)])

/-! ### One packet -/

section Packet

variable (ctx : SkBuff)

theorem SkBuff.toNat_dataEnd : ctx.dataEnd.toNat = ctx.data.toNat + ctx.bytes.length := by
  have hfits := ctx.fits
  rw [dataEnd, BitVec.toNat_add, BitVec.toNat_ofNat]
  omega

/-- The pointers do not wrap: they are 64 bits wide and `data` has 32. -/
theorem SkBuff.toNat_data_add {n : ℕ} (hn : n < 2 ^ 32) :
    (ctx.data.setWidth 64 + BitVec.ofNat 64 n).toNat = ctx.data.toNat + n := by
  have hdata := ctx.data.isLt
  rw [BitVec.toNat_add, BitVec.toNat_setWidth, BitVec.toNat_ofNat]
  omega

theorem SkBuff.data_add_gt_iff {n : ℕ} (hn : n < 2 ^ 32) :
    ctx.data.setWidth 64 + BitVec.ofNat 64 n > ctx.dataEnd.setWidth 64 ↔ ctx.bytes.length < n := by
  have hend := ctx.dataEnd.isLt
  rw [gt_iff_lt, BitVec.lt_def, ctx.toNat_data_add hn, BitVec.toNat_setWidth, ctx.toNat_dataEnd]
  rw [ctx.toNat_dataEnd] at hend
  omega

theorem SkBuff.load_data_add {off n : ℕ} (h : off + n ≤ ctx.bytes.length) :
    ctx.load (ctx.data.setWidth 64 + BitVec.ofNat 64 off) n = some ((ctx.bytes.drop off).take n) := by
  have hfits := ctx.fits
  have hp := ctx.toNat_data_add (n := off) (by omega)
  rw [load, if_pos ⟨by omega, by rw [ctx.toNat_dataEnd]; omega⟩, hp, Nat.add_sub_cancel_left]

end Packet

/-- The lines for a packet: one for an IPv4 packet with a whole header behind that of the
frame, with the length and the time to live that the header has. -/
def ipLines (ctx : SkBuff) : List (List UInt8) :=
  if ctx.protocol = htonsEthPIp ∧ 34 ≤ ctx.bytes.length then
    [ascii "Got IP packet: tot_len: " ++ decimal (256 * (ctx.bytes.getD 16 0).toNat + (ctx.bytes.getD 17 0).toNat) ++
      ascii ", ttl: " ++ decimal (ctx.bytes.getD 22 0).toNat]
  else []

theorem take_drop_eq_two {bs : List UInt8} {off : ℕ} (h : off + 2 ≤ bs.length) :
    (bs.drop off).take 2 = [bs.getD off 0, bs.getD (off + 1) 0] := by
  rw [List.getD_eq_getElem _ _ (by omega : off < bs.length), List.getD_eq_getElem _ _ (by omega : off + 1 < bs.length),
    List.drop_eq_getElem_cons (by omega), List.drop_eq_getElem_cons (by omega)]
  rfl

theorem headD_take_drop {bs : List UInt8} {off : ℕ} (h : off < bs.length) :
    ((bs.drop off).take 1).headD 0 = bs.getD off 0 := by
  rw [List.getD_eq_getElem _ _ h, List.drop_eq_getElem_cons h]
  rfl

/-- Every packet is let through, no read leaves it, and the lines are those that it should have. -/
theorem tcIngress_eq (ctx : SkBuff) : tcIngress ctx = some (tcActOk, ipLines ctx) := by
  unfold tcIngress ipLines
  by_cases hprot : ctx.protocol = htonsEthPIp
  swap
  · rw [if_pos hprot, if_neg fun h => hprot h.1]
  have hl2 := ctx.data_add_gt_iff (n := 14) (by decide)
  have hl3 := ctx.data_add_gt_iff (n := 34) (by decide)
  have hadd (n : ℕ) : ctx.data.setWidth 64 + 14#64 + BitVec.ofNat 64 n = ctx.data.setWidth 64 + BitVec.ofNat 64 (14 + n) := by
    rw [BitVec.add_assoc, ← BitVec.ofNat_add]
  simp only [hprot, ne_eq, not_true_eq_false, if_false, true_and]
  by_cases h14 : ctx.bytes.length < 14
  · rw [if_pos (hl2.mpr h14), if_neg (by omega)]
  rw [if_neg (mt hl2.mp h14)]
  by_cases h34 : ctx.bytes.length < 34
  · rw [hadd 20, if_pos (hl3.mpr h34), if_neg (by omega)]
  have hlen : 34 ≤ ctx.bytes.length := by omega
  have htot : (ntohs (le16 ((ctx.bytes.drop 16).take 2))).toNat =
      256 * (ctx.bytes.getD 16 0).toNat + (ctx.bytes.getD 17 0).toNat := by
    rw [take_drop_eq_two (by omega), ntohs_le16 rfl]
    simp only [beNat, List.foldl_cons, List.foldl_nil, Nat.reduceAdd]
    omega
  have httl : ((ctx.bytes.drop (14 + 8)).take 1).headD 0 = ctx.bytes.getD 22 0 := headD_take_drop (by omega)
  rw [hadd 20, if_neg (mt hl3.mp h34), if_pos hlen, hadd 2, hadd 8, ctx.load_data_add (by omega),
    ctx.load_data_add (by omega)]
  simp only [Option.pure_def, Option.bind_eq_bind, Option.bind_some, gotIpPacket, htot, httl]

/-! ### Packets during a run -/

section Seen

variable {F : Type*} {prog : F} {h : Hook F} {es : List (Event F)} {s : State F}

/-- The program is on the hook: while `main` holds it, and after the return of `main` if
the hook was there from the start and the filter could not be taken off it. -/
def seen (h : Hook F) (es : List (Event F)) (pc : Pc) : Bool :=
  match pc with
  | .returned _ => h.present && (refusedIn .signal es || refusedIn .detach es)
  | pc => holds es pc

/-- What is true in every state, also after the return. -/
structure Known (prog : F) (h : Hook F) (es : List (Event F)) (s : State F) : Prop where
  running : (∀ status, s.pc ≠ .returned status) → Sound prog h es s
  present : s.hook.present = (h.present || s.hookCreated)
  mine : s.hook.filters ours = some prog ↔ seen h es s.pc = true

/-- There is a hook if there was one or `main` has created it. -/
theorem present_step (hp : s.hook.present = (h.present || s.hookCreated)) (a : Action F) :
    (step prog s a).1.hook.present = (h.present || (step prog s a).1.hookCreated) := by
  cases a with
  | sigint => exact hp
  | other k v =>
    simp only [step]
    split_ifs
    · exact hp
    · exact hp
  | main refusal =>
    simp only [step, mainStep]
    cases hpc : s.pc with
    | load => cases refusal <;> exact hp
    | create =>
      rcases bpfTcHookCreate_cases refusal s.hook with ⟨hok, -⟩ | ⟨err, herr, hno⟩
      · simp [hok, Hook.create]
      · simp [hno, beq_eq_false_iff_ne.mpr herr, hp]
    | attach =>
      rcases bpfTcAttach_cases refusal prog s.hook with ⟨hok, -⟩ | ⟨err, -, hno⟩
      · rw [hok]
        exact hp
      · rw [hno]
        exact hp
    | signal => cases refusal <;> exact hp
    | loop => exact hp
    | detach =>
      rcases bpfTcDetach_cases refusal s.hook with ⟨hok, -⟩ | ⟨err, -, hno⟩
      · rw [hok]
        exact hp
      · rw [hno]
        exact hp
    | cleanup =>
      dsimp only
      split_ifs
      · exact hp
      · exact hp
    | returned status => exact hp

/-- What has a filter is there. -/
theorem Hook.present_of_filter {hook : Hook F} {k : Key} {f : F} (hf : hook.filters k = some f) :
    hook.present = true := by
  by_contra hno
  rw [hook.empty_of_absent (by simpa using hno)] at hf
  cases hf

theorem seen_of_running {pc : Pc} (hrun : ∀ status, pc ≠ .returned status) : seen h es pc = holds es pc := by
  unfold seen
  cases pc with
  | returned status => exact absurd rfl (hrun status)
  | _ => rfl

/-- Another user does not touch the filter of `main`. -/
theorem Hook.filters_set_ours (hook : Hook F) (k : {k : Key // k ≠ ours}) (v : Option F) :
    (hook.set k v).filters ours = hook.filters ours := by
  unfold Hook.set
  split_ifs
  · exact Function.update_of_ne (Ne.symm k.property) _ _
  · rfl

/-- The last step of `main`: its clean-up, or the return when nothing could be loaded. -/
theorem Known.returns (hk : Known prog h es s) (hrun : ∀ status, s.pc ≠ .returned status) {a : Action F}
    (hret : ∃ status, (step prog s a).1.pc = .returned status) :
    Known prog h (es ++ (step prog s a).2) (step prog s a).1 := by
  have hs := hk.running hrun
  have hmine := hk.mine
  rw [seen_of_running hrun] at hmine
  refine ⟨fun hrun' => ?_, present_step hk.present a, ?_⟩
  · obtain ⟨status, hret⟩ := hret
    exact absurd hret (hrun' status)
  cases a with
  | sigint => exact absurd hret.choose_spec (hrun _)
  | other k v =>
    obtain ⟨status, hret⟩ := hret
    simp only [step] at hret
    split_ifs at hret <;> exact absurd hret (hrun status)
  | main refusal =>
    rcases step_returns hrun hret with ⟨hpc, -⟩ | ⟨hpc, -⟩
    · rw [hpc] at hmine
      have hstep : step prog s (.main refusal) =
          ({ s with hook := if s.hookCreated then bpfTcHookDestroy s.hook else s.hook, pc := .returned (-s.err) }, []) := by
        simp only [step, mainStep, hpc]
      rw [hstep, List.append_nil]
      cases hc : s.hookCreated with
      | true => simp [seen, hs.created hc, bpfTcHookDestroy, Hook.removeAll]
      | false =>
        -- a filter that is left is on a hook that was there from the start
        have hpresent : s.hook.filters ours = some prog → h.present = true := fun hf => by
          have hp := hk.present
          rw [Hook.present_of_filter hf, hc, Bool.or_false] at hp
          exact hp.symm
        simp only [Bool.false_eq_true, if_false, seen, Bool.and_eq_true]
        exact ⟨fun hf => ⟨hpresent hf, hmine.mp hf⟩, fun hl => hmine.mpr hl.2⟩
    · have hcreated := (hs.early (Or.inl hpc)).1
      have hclean := hs.clean (by simp [hpc])
      rw [hpc] at hmine
      cases refusal with
      | none =>
        obtain ⟨status, hret⟩ := hret
        simp [step, mainStep, hpc] at hret
      | some err => simpa [step, mainStep, hpc, seen, hcreated, hclean, holds] using hmine

/-- Nothing that happens after the return changes what is on the hook for `main`. -/
theorem Known.after (hk : Known prog h es s) {status : BitVec 32} (hpc : s.pc = .returned status) (a : Action F) :
    Known prog h (es ++ (step prog s a).2) (step prog s a).1 := by
  refine ⟨fun hrun => absurd (step_returned hpc a) (hrun status), present_step hk.present a, ?_⟩
  have hmine := hk.mine
  simp only [seen, hpc] at hmine
  cases a with
  | sigint => simpa [step, seen, hpc] using hmine
  | main refusal => simpa [step, mainStep, seen, hpc] using hmine
  | other k v =>
    simp only [step]
    split_ifs
    · simpa [seen, hpc, Hook.filters_set_ours] using hmine
    · simpa [seen, hpc] using hmine

/-- The lines that the program of `main` writes for a packet that comes now. Whether a
packet gets to a filter at the key of `main` is up to the kernel and the filters before it,
which may end the walk. -/
def lines [DecidableEq F] (reaches : Hook F → SkBuff → Bool) (prog : F) (s : State F) (ctx : SkBuff) :
    List (List UInt8) :=
  if s.hook.filters ours = some prog ∧ reaches s.hook ctx = true then (tcIngress ctx).elim [] Prod.snd else []

end Seen

end LibbpfBootstrap.Tc
