import LibbpfBootstrap.Kernel.Runs
import LibbpfBootstrap.Kernel.BpfMap
import LibbpfBootstrap.Kernel.Helpers

/-! The four probes of `tracecon.bpf.c`. A firing is one atomic step on the maps
`lookups`, `hostnames` and `sockets`; a return of `tcp_v4_connect` may emit an
event. The firing carries what the probe finds: the thread, its arguments or its
return value, the memory of the process, and whether the kernel admits an
absent key to the map that the probe updates. -/

namespace LibbpfBootstrap.Tracecon

open Kernel Kernel.Runs

abbrev hostnameLen : ℕ := 84

/-- `struct lookup`. -/
structure Lookup where
  c : CharBuf hostnameLen
  results : BitVec 64
  deriving DecidableEq

/-- `enum tag`. -/
inductive Tag
  | ip | hostname
  deriving DecidableEq

/-- `struct event`. -/
structure Event where
  tag : Tag
  ip : CharBuf 4
  hostname : CharBuf hostnameLen
  deriving DecidableEq

structure Maps where
  lookups : BpfMap (BitVec 32) Lookup
  hostnames : BpfMap (BitVec 32) Lookup
  sockets : BpfMap (BitVec 32) (BitVec 64)

def Maps.empty : Maps := ⟨∅, ∅, ∅⟩

/-- A thread enters `getaddrinfo`; `hostname` and `res` are addresses in its memory. -/
structure GetaddrinfoEnter where
  pidTgid : BitVec 64
  mem : UserMemory
  hostname : BitVec 64
  res : BitVec 64
  admitted : Bool

structure GetaddrinfoExit where
  pidTgid : BitVec 64
  mem : UserMemory
  ret : BitVec 32
  admitted : Bool

/-- A thread enters `tcp_v4_connect` with a socket. -/
structure TcpV4ConnectEnter where
  pidTgid : BitVec 64
  sk : BitVec 64
  admitted : Bool

/-- `skcDaddr` is the destination that a socket holds at that moment. -/
structure TcpV4ConnectExit where
  pidTgid : BitVec 64
  ret : BitVec 32
  skcDaddr : BitVec 64 → BitVec 32

inductive Firing
  | getaddrinfoEnter (f : GetaddrinfoEnter)
  | getaddrinfoExit (f : GetaddrinfoExit)
  | tcpV4ConnectEnter (f : TcpV4ConnectEnter)
  | tcpV4ConnectExit (f : TcpV4ConnectExit)

def Firing.pidTgid : Firing → BitVec 64
  | .getaddrinfoEnter f => f.pidTgid
  | .getaddrinfoExit f => f.pidTgid
  | .tcpV4ConnectEnter f => f.pidTgid
  | .tcpV4ConnectExit f => f.pidTgid

/-- The thread, or zero when the process is not the one to observe. -/
def getTid (targetPid : BitVec 32) (id : BitVec 64) : BitVec 32 :=
  if targetPid ≠ 0#32 ∧ targetPid ≠ pidOf id then 0#32 else tidOf id

/-- The value stored for a call. -/
def GetaddrinfoEnter.lookup (f : GetaddrinfoEnter) : Lookup :=
  ⟨f.mem.probeReadUserStr f.hostname (fun _ => 0), f.res⟩

/-- The chain of reads through `(*results)->ai_addr->sin_addr`. -/
def ipv4Addr (mem : UserMemory) (results : BitVec 64) : BitVec 32 :=
  let result := BitVec.ofNat 64 (leNat (mem.probeReadUser 8 results))
  let addr := BitVec.ofNat 64 (leNat (mem.probeReadUser 8 (result + 24)))
  BitVec.ofNat 32 (leNat (mem.probeReadUser 4 (addr + 4)))

def getaddrinfoEnter (targetPid : BitVec 32) (s : Maps) (f : GetaddrinfoEnter) : Maps :=
  let tid := getTid targetPid f.pidTgid
  if tid = 0#32 then s
  else { s with lookups := s.lookups.updateElem f.admitted tid f.lookup }

def getaddrinfoExit (targetPid : BitVec 32) (s : Maps) (f : GetaddrinfoExit) : Maps :=
  let tid := getTid targetPid f.pidTgid
  if tid = 0#32 then s
  else if f.ret ≠ 0#32 then { s with lookups := s.lookups.erase tid }
  else match s.lookups.lookup tid with
    | none => s
    | some lookup =>
      { s with
        hostnames := s.hostnames.updateElem f.admitted (ipv4Addr f.mem lookup.results) lookup
        lookups := s.lookups.erase tid }

def tcpV4ConnectEnter (targetPid : BitVec 32) (s : Maps) (f : TcpV4ConnectEnter) : Maps :=
  let tid := getTid targetPid f.pidTgid
  if tid = 0#32 then s
  else { s with sockets := s.sockets.updateElem f.admitted tid f.sk }

/-- The event about a destination, with the name that `hostnames` holds for it. -/
def report (ip : BitVec 32) : Option Lookup → Event
  | none => ⟨.ip, fun i => (leBytes 4 ip.toNat)[i], fun _ => 0⟩
  | some lookup => ⟨.hostname, fun _ => 0, lookup.c⟩

def tcpV4ConnectExit (targetPid : BitVec 32) (s : Maps) (f : TcpV4ConnectExit) : Maps × List Event :=
  let tid := getTid targetPid f.pidTgid
  if tid = 0#32 then (s, [])
  else if f.ret ≠ 0#32 then ({ s with sockets := s.sockets.erase tid }, [])
  else match s.sockets.lookup tid with
    | none => (s, [])
    | some sk =>
      let ip := f.skcDaddr sk
      let lookup := s.hostnames.lookup ip
      let hostnames := if lookup.isSome then s.hostnames.erase ip else s.hostnames
      ({ s with hostnames := hostnames, sockets := s.sockets.erase tid }, [report ip lookup])

def fire (targetPid : BitVec 32) (s : Maps) : Firing → Maps × List Event
  | .getaddrinfoEnter f => (getaddrinfoEnter targetPid s f, [])
  | .getaddrinfoExit f => (getaddrinfoExit targetPid s f, [])
  | .tcpV4ConnectEnter f => (tcpV4ConnectEnter targetPid s f, [])
  | .tcpV4ConnectExit f => tcpV4ConnectExit targetPid s f

/-- The maps after a list of firings, all empty at the start. -/
def after (targetPid : BitVec 32) (fs : List Firing) : Maps := final (fire targetPid) .empty fs

theorem after_concat (targetPid : BitVec 32) (fs : List Firing) (f : Firing) :
    after targetPid (fs ++ [f]) = (fire targetPid (after targetPid fs) f).1 := final_concat _ _ _ _

/-! ### What a probe does to each map -/

section Effects

variable {targetPid : BitVec 32} {s : Maps}

/-- A return of `getaddrinfo` leaves no entry of its thread, on every path. -/
theorem getaddrinfoExit_lookups (f : GetaddrinfoExit) (h : getTid targetPid f.pidTgid ≠ 0#32) :
    (getaddrinfoExit targetPid s f).lookups = s.lookups.erase (getTid targetPid f.pidTgid) := by
  simp only [getaddrinfoExit, if_neg h]
  split_ifs
  · rfl
  · cases hl : s.lookups.lookup (getTid targetPid f.pidTgid) with
    | none => exact (BpfMap.erase_of_notMem (Finmap.lookup_eq_none.mp hl)).symm
    | some lookup => rfl

theorem getaddrinfoExit_hostnames (f : GetaddrinfoExit) (h : getTid targetPid f.pidTgid ≠ 0#32) :
    (getaddrinfoExit targetPid s f).hostnames =
      if f.ret = 0#32 then
        match s.lookups.lookup (getTid targetPid f.pidTgid) with
        | none => s.hostnames
        | some lookup => s.hostnames.updateElem f.admitted (ipv4Addr f.mem lookup.results) lookup
      else s.hostnames := by
  simp only [getaddrinfoExit, if_neg h]
  by_cases hr : f.ret = 0#32
  · simp only [hr, ne_eq, not_true, if_false, if_true]
    cases s.lookups.lookup (getTid targetPid f.pidTgid) <;> rfl
  · simp only [hr, ne_eq, not_false_iff, if_true, if_false]

theorem getaddrinfoExit_sockets (f : GetaddrinfoExit) :
    (getaddrinfoExit targetPid s f).sockets = s.sockets := by
  simp only [getaddrinfoExit]
  split_ifs
  · rfl
  · rfl
  · cases s.lookups.lookup (getTid targetPid f.pidTgid) <;> rfl

/-- A return of `tcp_v4_connect` leaves no entry of its thread, on every path. -/
theorem tcpV4ConnectExit_sockets (f : TcpV4ConnectExit) (h : getTid targetPid f.pidTgid ≠ 0#32) :
    (tcpV4ConnectExit targetPid s f).1.sockets = s.sockets.erase (getTid targetPid f.pidTgid) := by
  simp only [tcpV4ConnectExit, if_neg h]
  split_ifs
  · rfl
  · cases hl : s.sockets.lookup (getTid targetPid f.pidTgid) with
    | none => exact (BpfMap.erase_of_notMem (Finmap.lookup_eq_none.mp hl)).symm
    | some sk => rfl

theorem tcpV4ConnectExit_lookups (f : TcpV4ConnectExit) :
    (tcpV4ConnectExit targetPid s f).1.lookups = s.lookups := by
  simp only [tcpV4ConnectExit]
  split_ifs
  · rfl
  · rfl
  · cases s.sockets.lookup (getTid targetPid f.pidTgid) <;> rfl

/-- A destination that is asked for has no name afterwards. -/
theorem tcpV4ConnectExit_hostnames (f : TcpV4ConnectExit) (h : getTid targetPid f.pidTgid ≠ 0#32) :
    (tcpV4ConnectExit targetPid s f).1.hostnames =
      if f.ret = 0#32 then
        match s.sockets.lookup (getTid targetPid f.pidTgid) with
        | none => s.hostnames
        | some sk => s.hostnames.erase (f.skcDaddr sk)
      else s.hostnames := by
  simp only [tcpV4ConnectExit, if_neg h]
  by_cases hr : f.ret = 0#32
  · simp only [hr, ne_eq, not_true, if_false, if_true]
    cases s.sockets.lookup (getTid targetPid f.pidTgid) with
    | none => rfl
    | some sk =>
      simp only
      split_ifs with hs
      · rfl
      · rw [Finmap.lookup_isSome] at hs
        exact (BpfMap.erase_of_notMem hs).symm
  · simp only [hr, ne_eq, not_false_iff, if_true, if_false]

theorem tcpV4ConnectExit_events (f : TcpV4ConnectExit) (h : getTid targetPid f.pidTgid ≠ 0#32) :
    (tcpV4ConnectExit targetPid s f).2 =
      if f.ret = 0#32 then
        match s.sockets.lookup (getTid targetPid f.pidTgid) with
        | none => []
        | some sk => [report (f.skcDaddr sk) (s.hostnames.lookup (f.skcDaddr sk))]
      else [] := by
  simp only [tcpV4ConnectExit, if_neg h]
  by_cases hr : f.ret = 0#32
  · simp only [hr, ne_eq, not_true, if_false, if_true]
    cases s.sockets.lookup (getTid targetPid f.pidTgid) <;> rfl
  · simp only [hr, ne_eq, not_false_iff, if_true, if_false]

/-- A firing of a process that is not observed does nothing. -/
theorem fire_of_getTid_eq_zero {f : Firing} (h : getTid targetPid f.pidTgid = 0#32) :
    fire targetPid s f = (s, []) := by
  cases f with
  | getaddrinfoEnter f =>
    have h : getTid targetPid f.pidTgid = 0#32 := h
    simp [fire, getaddrinfoEnter, h]
  | getaddrinfoExit f =>
    have h : getTid targetPid f.pidTgid = 0#32 := h
    simp [fire, getaddrinfoExit, h]
  | tcpV4ConnectEnter f =>
    have h : getTid targetPid f.pidTgid = 0#32 := h
    simp [fire, tcpV4ConnectEnter, h]
  | tcpV4ConnectExit f =>
    have h : getTid targetPid f.pidTgid = 0#32 := h
    simp [fire, tcpV4ConnectExit, h]

/-- A host event is that of a connection that finds a name for its destination. -/
theorem fire_hostname_event {f : Firing} {e : Event} (he : e ∈ (fire targetPid s f).2) (htag : e.tag = .hostname) :
    ∃ x sk lookup, f = .tcpV4ConnectExit x ∧ s.sockets.lookup (getTid targetPid x.pidTgid) = some sk ∧
      s.hostnames.lookup (x.skcDaddr sk) = some lookup ∧ e.hostname = lookup.c := by
  cases f with
  | getaddrinfoEnter f => simp [fire] at he
  | getaddrinfoExit f => simp [fire] at he
  | tcpV4ConnectEnter f => simp [fire] at he
  | tcpV4ConnectExit x =>
    by_cases h0 : getTid targetPid x.pidTgid = 0#32
    · rw [fire_of_getTid_eq_zero (f := .tcpV4ConnectExit x) h0] at he
      simp at he
    · simp only [fire, tcpV4ConnectExit_events x h0] at he
      split_ifs at he
      · cases hsk : s.sockets.lookup (getTid targetPid x.pidTgid) with
        | none => simp [hsk] at he
        | some sk =>
          simp only [hsk, List.mem_singleton] at he
          cases hn : s.hostnames.lookup (x.skcDaddr sk) with
          | none =>
            rw [hn] at he
            subst he
            cases htag
          | some lookup =>
            rw [hn] at he
            subst he
            exact ⟨x, sk, lookup, rfl, hsk, hn, rfl⟩
      · simp at he

end Effects

/-! ### A resolved name -/

/-- The memory of a process that asked for `name` at `0x100` and got a list of
results at `0x1000`, whose first one at `0x2000` has its socket address at
`0x3000`: the family, and four bytes that are the address of an `AF_INET` result. -/
def resolved (name : List UInt8) (family : UInt8) (addr : BitVec 32) : UserMemory where
  byte a :=
    if a = 0x1001#64 then 0x20
    else if a = 0x2004#64 ∨ a = 0x3000#64 then family
    else if a = 0x2019#64 then 0x30
    else if 0x3004#64 ≤ a ∧ a < 0x3008#64 then (leBytes 4 addr.toNat).getD (a - 0x3004#64).toNat 0
    else if 0x100#64 ≤ a ∧ a < 0x1000#64 then name.getD (a - 0x100#64).toNat 0
    else 0
  faults _ := false

theorem ipv4Addr_resolved (name : List UInt8) (family : UInt8) (addr : BitVec 32) :
    ipv4Addr (resolved name family addr) 0x1000#64 = addr := by
  have hr : BitVec.ofNat 64 (leNat ((resolved name family addr).probeReadUser 8 0x1000#64)) = 0x2000#64 := by
    simp [UserMemory.probeReadUser, UserMemory.readable, UserMemory.bytesAt, resolved, leNat]
  have ha : BitVec.ofNat 64 (leNat ((resolved name family addr).probeReadUser 8 (0x2000#64 + 24))) =
      0x3000#64 := by
    simp [UserMemory.probeReadUser, UserMemory.readable, UserMemory.bytesAt, resolved, leNat]
  have hb : (resolved name family addr).probeReadUser 4 (0x3000#64 + 4) = leBytes 4 addr.toNat := by
    simp [UserMemory.probeReadUser, UserMemory.readable, UserMemory.bytesAt, resolved, leBytes]
  simp only [ipv4Addr, hr, ha, hb]
  rw [leNat_leBytes]
  apply BitVec.eq_of_toNat_eq
  rw [BitVec.toNat_ofNat]
  have := addr.isLt
  omega

end LibbpfBootstrap.Tracecon
