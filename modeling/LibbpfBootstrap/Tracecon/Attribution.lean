import LibbpfBootstrap.Tracecon.Probes

/-! Whose connection is reported under which name. The maps are read back from
the history of the firings alone, and from the memory of the processes: `lookups`
and `sockets` from the calls of one thread, `hostnames` from the answers to one
address and the connections that asked for it. Under any interleaving of threads
that enter and leave the two functions in turn, an entry of a thread is its open
call, and every connection is reported once, with the latest name of its
destination. -/

namespace LibbpfBootstrap.Tracecon

open Kernel Kernel.Runs

variable (targetPid : BitVec 32)

/-! ### What a process does -/

/-- A call of `getaddrinfo`: the name that is passed, and where the results go. -/
structure Call where
  name : List UInt8
  res : BitVec 64
  deriving DecidableEq

/-- The name is the string in memory, up to its NUL and cut to 83 bytes. Where it
cannot be read there is none. -/
def GetaddrinfoEnter.call (f : GetaddrinfoEnter) : Call where
  name := if f.mem.strReadable 84 f.hostname then f.mem.strAt 83 f.hostname else []
  res := f.res

/-- What is to be kept of a call: the name, NULs up to the end of the buffer, and
where the results go. -/
def Call.entry (c : Call) : Lookup := ⟨fun i => c.name.getD i.val 0, c.res⟩

/-- The IPv4 address in the first of the results: their list is at `*res`, a result
has the pointer to its socket address at byte 24, and the socket address has the
IPv4 address at byte 4. -/
def firstIpv4 (mem : UserMemory) (res : BitVec 64) : BitVec 32 :=
  BitVec.ofNat 32 (mem.number 4 (BitVec.ofNat 64 (mem.number 8 (BitVec.ofNat 64 (mem.number 8 res) + 24)) + 4))

/-- The event about a destination without a name: its four bytes, the lowest first. -/
def ipEvent (d : BitVec 32) : Event :=
  ⟨.ip, fun i => UInt8.ofNat (d.toNat / 256 ^ i.val % 256), fun _ => 0⟩

/-- The event about a destination with a name: the name and NULs. -/
def hostEvent (name : List UInt8) : Event := ⟨.hostname, fun _ => 0, fun i => name.getD i.val 0⟩

theorem lookup_eq_entry (f : GetaddrinfoEnter) : f.lookup = f.call.entry := by
  unfold GetaddrinfoEnter.lookup GetaddrinfoEnter.call Call.entry
  by_cases h : f.mem.strReadable 84 f.hostname = true
  · simp only [if_pos h]
    exact congrArg (Lookup.mk · f.res) (UserMemory.probeReadUserStr_zeros h)
  · rw [UserMemory.probeReadUserStr, if_neg h, if_neg h]
    rfl

theorem ipv4Addr_eq_firstIpv4 (mem : UserMemory) (res : BitVec 64) : ipv4Addr mem res = firstIpv4 mem res := by
  simp only [ipv4Addr, firstIpv4, UserMemory.leNat_probeReadUser]

theorem report_none (d : BitVec 32) : report d none = ipEvent d := by
  have hip : (fun i : Fin 4 => (leBytes 4 d.toNat)[i]) = fun i => UInt8.ofNat (d.toNat / 256 ^ i.val % 256) := by
    funext i
    rw [← getD_leBytes d.toNat i.isLt]
    exact (List.getD_eq_getElem _ _ _).symm
  rw [report, hip, ipEvent]

theorem report_entry (d : BitVec 32) (c : Call) : report d (some c.entry) = hostEvent c.name := rfl

/-! ### The calls of a thread -/

def getaddrinfoEnterOf (tid : BitVec 32) : Firing → Option (Call × Bool)
  | .getaddrinfoEnter f =>
    if getTid targetPid f.pidTgid = tid ∧ tid ≠ 0#32 then some (f.call, f.admitted) else none
  | _ => none

def getaddrinfoExitOf (tid : BitVec 32) : Firing → Bool
  | .getaddrinfoExit f => decide (getTid targetPid f.pidTgid = tid ∧ tid ≠ 0#32)
  | _ => false

def tcpV4ConnectEnterOf (tid : BitVec 32) : Firing → Option (BitVec 64 × Bool)
  | .tcpV4ConnectEnter f =>
    if getTid targetPid f.pidTgid = tid ∧ tid ≠ 0#32 then some (f.sk, f.admitted) else none
  | _ => none

def tcpV4ConnectExitOf (tid : BitVec 32) : Firing → Bool
  | .tcpV4ConnectExit f => decide (getTid targetPid f.pidTgid = tid ∧ tid ≠ 0#32)
  | _ => false

/-- The lookup that a thread is waiting for. -/
def lookupOf (tid : BitVec 32) (past : List Firing) : Option Call :=
  remembered (getaddrinfoEnterOf targetPid tid) (getaddrinfoExitOf targetPid tid) past

/-- The socket that a thread is connecting. -/
def socketOf (tid : BitVec 32) (past : List Firing) : Option (BitVec 64) :=
  remembered (tcpV4ConnectEnterOf targetPid tid) (tcpV4ConnectExitOf targetPid tid) past

/-! ### The names of an address -/

/-- What a firing means to `hostnames`: an address is answered for a name, or a
connection asks for the name of its destination. -/
inductive Note
  | answered (ip : BitVec 32) (call : Call) (admitted : Bool)
  | asked (ip : BitVec 32)

def answeredOf (ip : BitVec 32) : Note → Option (Call × Bool)
  | .answered ip' call admitted => if ip' = ip then some (call, admitted) else none
  | .asked _ => none

def askedOf (ip : BitVec 32) : Note → Bool
  | .answered _ _ _ => false
  | .asked ip' => decide (ip' = ip)

def note (past : List Firing) : Firing → List Note
  | .getaddrinfoExit f =>
    if f.ret = 0#32 then
      match lookupOf targetPid (getTid targetPid f.pidTgid) past with
      | none => []
      | some call => [.answered (firstIpv4 f.mem call.res) call f.admitted]
    else []
  | .tcpV4ConnectExit f =>
    if f.ret = 0#32 then
      match socketOf targetPid (getTid targetPid f.pidTgid) past with
      | none => []
      | some sk => [.asked (f.skcDaddr sk)]
    else []
  | _ => []

/-- The latest name answered for an address since a connection last asked for it,
provided one of the answers since then was admitted. -/
def hostnameOf (ip : BitVec 32) (past : List Firing) : Option Call :=
  remembered (answeredOf ip) (askedOf ip) (foretold (note targetPid) [] past)

/-- The maps are the reading of the history. -/
structure Tracks (past : List Firing) (s : Maps) : Prop where
  lookups : ∀ tid, s.lookups.lookup tid = (lookupOf targetPid tid past).map Call.entry
  sockets : ∀ tid, s.sockets.lookup tid = socketOf targetPid tid past
  hostnames : ∀ ip, s.hostnames.lookup ip = (hostnameOf targetPid ip past).map Call.entry

theorem tracks_nil : Tracks targetPid [] .empty where
  lookups _ := by rw [lookupOf, remembered_nil]; rfl
  sockets _ := by rw [socketOf, remembered_nil]; rfl
  hostnames _ := by rw [hostnameOf, foretold, remembered_nil]; rfl

variable {targetPid}

variable {past : List Firing} {s : Maps} {f : Firing}

/-! ### One firing -/

/-- A firing of a process that is not observed belongs to no thread. -/
theorem not_owned (h0 : getTid targetPid f.pidTgid = 0#32) (tid : BitVec 32) :
    ¬ (getTid targetPid f.pidTgid = tid ∧ tid ≠ 0#32) := by
  rintro ⟨rfl, hne⟩
  exact hne h0

theorem lookupOf_unobserved (h0 : getTid targetPid f.pidTgid = 0#32) (tid : BitVec 32) :
    lookupOf targetPid tid (past ++ [f]) = lookupOf targetPid tid past := by
  have h := not_owned h0 tid
  cases f with
  | getaddrinfoEnter f => exact remembered_concat_keep past rfl (if_neg h)
  | getaddrinfoExit f => exact remembered_concat_keep past (decide_eq_false h) rfl
  | tcpV4ConnectEnter f => exact remembered_concat_keep past rfl rfl
  | tcpV4ConnectExit f => exact remembered_concat_keep past rfl rfl

theorem socketOf_unobserved (h0 : getTid targetPid f.pidTgid = 0#32) (tid : BitVec 32) :
    socketOf targetPid tid (past ++ [f]) = socketOf targetPid tid past := by
  have h := not_owned h0 tid
  cases f with
  | getaddrinfoEnter f => exact remembered_concat_keep past rfl rfl
  | getaddrinfoExit f => exact remembered_concat_keep past rfl rfl
  | tcpV4ConnectEnter f => exact remembered_concat_keep past rfl (if_neg h)
  | tcpV4ConnectExit f => exact remembered_concat_keep past (decide_eq_false h) rfl

/-- A return of `getaddrinfo` means nothing to the thread's other call, and the
other way round. -/
theorem tracks_lookups (h : Tracks targetPid past s) (h0 : getTid targetPid f.pidTgid ≠ 0#32)
    (tid : BitVec 32) :
    (fire targetPid s f).1.lookups.lookup tid = (lookupOf targetPid tid (past ++ [f])).map Call.entry := by
  cases f with
  | getaddrinfoEnter f =>
    have h0 : getTid targetPid f.pidTgid ≠ 0#32 := h0
    simp only [fire, getaddrinfoEnter, if_neg h0]
    have hput : getaddrinfoEnterOf targetPid (getTid targetPid f.pidTgid) (.getaddrinfoEnter f) =
        some (f.call, f.admitted) := if_pos ⟨rfl, h0⟩
    rw [lookup_eq_entry]
    exact follows_updateElem_map h.lookups (fun _ => rfl) hput (fun tid' ht => if_neg fun hc => ht hc.1.symm) tid
  | getaddrinfoExit f =>
    have h0 : getTid targetPid f.pidTgid ≠ 0#32 := h0
    simp only [fire, getaddrinfoExit_lookups f h0]
    have hdel : getaddrinfoExitOf targetPid (getTid targetPid f.pidTgid) (.getaddrinfoExit f) = true :=
      decide_eq_true ⟨rfl, h0⟩
    exact follows_erase_map h.lookups hdel (fun tid' ht => decide_eq_false fun hc => ht hc.1.symm) (fun _ => rfl) tid
  | tcpV4ConnectEnter f =>
    have h0 : getTid targetPid f.pidTgid ≠ 0#32 := h0
    simp only [fire, tcpV4ConnectEnter, if_neg h0]
    rw [h.lookups, lookupOf, lookupOf, remembered_concat_keep past rfl rfl]
  | tcpV4ConnectExit f =>
    rw [fire, tcpV4ConnectExit_lookups, h.lookups, lookupOf, lookupOf, remembered_concat_keep past rfl rfl]

theorem tracks_sockets (h : Tracks targetPid past s) (h0 : getTid targetPid f.pidTgid ≠ 0#32)
    (tid : BitVec 32) :
    (fire targetPid s f).1.sockets.lookup tid = socketOf targetPid tid (past ++ [f]) := by
  cases f with
  | getaddrinfoEnter f =>
    have h0 : getTid targetPid f.pidTgid ≠ 0#32 := h0
    simp only [fire, getaddrinfoEnter, if_neg h0]
    rw [h.sockets, socketOf, socketOf, remembered_concat_keep past rfl rfl]
  | getaddrinfoExit f =>
    rw [fire, getaddrinfoExit_sockets, h.sockets, socketOf, socketOf, remembered_concat_keep past rfl rfl]
  | tcpV4ConnectEnter f =>
    have h0 : getTid targetPid f.pidTgid ≠ 0#32 := h0
    simp only [fire, tcpV4ConnectEnter, if_neg h0]
    have hput : tcpV4ConnectEnterOf targetPid (getTid targetPid f.pidTgid) (.tcpV4ConnectEnter f) =
        some (f.sk, f.admitted) := if_pos ⟨rfl, h0⟩
    exact follows_updateElem h.sockets (fun _ => rfl) hput (fun tid' ht => if_neg fun hc => ht hc.1.symm) tid
  | tcpV4ConnectExit f =>
    have h0 : getTid targetPid f.pidTgid ≠ 0#32 := h0
    simp only [fire, tcpV4ConnectExit_sockets f h0]
    have hdel : tcpV4ConnectExitOf targetPid (getTid targetPid f.pidTgid) (.tcpV4ConnectExit f) = true :=
      decide_eq_true ⟨rfl, h0⟩
    exact follows_erase h.sockets hdel (fun tid' ht => decide_eq_false fun hc => ht hc.1.symm) (fun _ => rfl) tid

theorem hostnameOf_concat (ip : BitVec 32) :
    hostnameOf targetPid ip (past ++ [f]) =
      remembered (answeredOf ip) (askedOf ip) (foretold (note targetPid) [] past ++ note targetPid past f) := by
  rw [hostnameOf, foretold_concat, List.nil_append]

theorem hostnameOf_concat_nil (hn : note targetPid past f = []) (ip : BitVec 32) :
    hostnameOf targetPid ip (past ++ [f]) = hostnameOf targetPid ip past := by
  rw [hostnameOf_concat, hn, List.append_nil, hostnameOf]

theorem tracks_hostnames (h : Tracks targetPid past s) (h0 : getTid targetPid f.pidTgid ≠ 0#32)
    (ip : BitVec 32) :
    (fire targetPid s f).1.hostnames.lookup ip = (hostnameOf targetPid ip (past ++ [f])).map Call.entry := by
  cases f with
  | getaddrinfoEnter f =>
    have h0 : getTid targetPid f.pidTgid ≠ 0#32 := h0
    simp only [fire, getaddrinfoEnter, if_neg h0]
    rw [h.hostnames, hostnameOf_concat_nil rfl]
  | tcpV4ConnectEnter f =>
    have h0 : getTid targetPid f.pidTgid ≠ 0#32 := h0
    simp only [fire, tcpV4ConnectEnter, if_neg h0]
    rw [h.hostnames, hostnameOf_concat_nil rfl]
  | getaddrinfoExit f =>
    have h0 : getTid targetPid f.pidTgid ≠ 0#32 := h0
    simp only [fire, getaddrinfoExit_hostnames f h0, h.lookups]
    by_cases hr : f.ret = 0#32
    · rw [if_pos hr]
      cases hl : lookupOf targetPid (getTid targetPid f.pidTgid) past with
      | none =>
        rw [hostnameOf_concat_nil (by simp [note, hl])]
        exact h.hostnames ip
      | some call =>
        have hn : note targetPid past (.getaddrinfoExit f) =
            [.answered (firstIpv4 f.mem call.res) call f.admitted] := by simp [note, hr, hl]
        have hput : answeredOf (firstIpv4 f.mem call.res) (.answered (firstIpv4 f.mem call.res) call f.admitted) =
            some (call, f.admitted) := if_pos rfl
        rw [hostnameOf_concat, hn]
        simp only [Option.map_some, ipv4Addr_eq_firstIpv4]
        exact follows_updateElem_map h.hostnames (fun _ => rfl) hput (fun ip' hip => if_neg (Ne.symm hip)) ip
    · rw [if_neg hr, h.hostnames, hostnameOf_concat_nil (by simp [note, hr])]
  | tcpV4ConnectExit f =>
    have h0 : getTid targetPid f.pidTgid ≠ 0#32 := h0
    simp only [fire, tcpV4ConnectExit_hostnames f h0, h.sockets]
    by_cases hr : f.ret = 0#32
    · rw [if_pos hr]
      cases hl : socketOf targetPid (getTid targetPid f.pidTgid) past with
      | none => rw [h.hostnames, hostnameOf_concat_nil (by simp [note, hl])]
      | some sk =>
        have hn : note targetPid past (.tcpV4ConnectExit f) = [.asked (f.skcDaddr sk)] := by
          simp [note, hr, hl]
        rw [hostnameOf_concat, hn]
        have hdel : askedOf (f.skcDaddr sk) (.asked (f.skcDaddr sk)) = true := decide_eq_true rfl
        exact follows_erase_map h.hostnames hdel (fun ip' hip => decide_eq_false (Ne.symm hip)) (fun _ => rfl) ip
    · rw [if_neg hr, h.hostnames, hostnameOf_concat_nil (by simp [note, hr])]

-- no thread has the id zero
theorem lookupOf_zero (past : List Firing) : lookupOf targetPid 0#32 past = none :=
  remembered_eq_none (fun f => by cases f <;> simp [getaddrinfoEnterOf]) past

theorem socketOf_zero (past : List Firing) : socketOf targetPid 0#32 past = none :=
  remembered_eq_none (fun f => by cases f <;> simp [tcpV4ConnectEnterOf]) past

theorem note_unobserved (h0 : getTid targetPid f.pidTgid = 0#32) : note targetPid past f = [] := by
  cases f with
  | getaddrinfoExit f =>
    have h0 : getTid targetPid f.pidTgid = 0#32 := h0
    simp [note, h0, lookupOf_zero]
  | tcpV4ConnectExit f =>
    have h0 : getTid targetPid f.pidTgid = 0#32 := h0
    simp [note, h0, socketOf_zero]
  | getaddrinfoEnter f => rfl
  | tcpV4ConnectEnter f => rfl

theorem tracks_fire (h : Tracks targetPid past s) (f : Firing) :
    Tracks targetPid (past ++ [f]) (fire targetPid s f).1 := by
  by_cases h0 : getTid targetPid f.pidTgid = 0#32
  · rw [fire_of_getTid_eq_zero h0]
    exact ⟨fun tid => by rw [h.lookups, lookupOf_unobserved h0],
      fun tid => by rw [h.sockets, socketOf_unobserved h0],
      fun ip => by rw [h.hostnames, hostnameOf_concat_nil (note_unobserved h0)]⟩
  · exact ⟨tracks_lookups h h0, tracks_sockets h h0, tracks_hostnames h h0⟩

/-- After every run, of any threads in any order, the maps are the reading of its
history. -/
theorem tracks_after (targetPid : BitVec 32) (fs : List Firing) : Tracks targetPid fs (after targetPid fs) :=
  run_invariant (Tracks targetPid) (tracks_nil targetPid) (fun _ _ f h => tracks_fire h f) fs

/-! ### Threads that enter and leave in turn -/

variable (targetPid)

/-- The call of `getaddrinfo` that a thread is inside of: its arguments, and
whether they were admitted to `lookups`. -/
def openGetaddrinfo (tid : BitVec 32) (past : List Firing) : Option (Call × Bool) :=
  openCall (getaddrinfoEnterOf targetPid tid) (getaddrinfoExitOf targetPid tid) past

/-- The call of `tcp_v4_connect` that a thread is inside of. -/
def openConnect (tid : BitVec 32) (past : List Firing) : Option (BitVec 64 × Bool) :=
  openCall (tcpV4ConnectEnterOf targetPid tid) (tcpV4ConnectExitOf targetPid tid) past

/-- A monitored thread enters a function that it is not inside of, or leaves one
that it is inside of. -/
def Alternates (past : List Firing) (f : Firing) : Prop :=
  getTid targetPid f.pidTgid ≠ 0#32 ∧
    match f with
    | .getaddrinfoEnter f => openGetaddrinfo targetPid (getTid targetPid f.pidTgid) past = none
    | .getaddrinfoExit f => openGetaddrinfo targetPid (getTid targetPid f.pidTgid) past ≠ none
    | .tcpV4ConnectEnter f => openConnect targetPid (getTid targetPid f.pidTgid) past = none
    | .tcpV4ConnectExit f => openConnect targetPid (getTid targetPid f.pidTgid) past ≠ none

instance (past : List Firing) : ∀ f, Decidable (Alternates targetPid past f)
  | .getaddrinfoEnter _ => inferInstanceAs (Decidable (_ ∧ _))
  | .getaddrinfoExit _ => inferInstanceAs (Decidable (_ ∧ _))
  | .tcpV4ConnectEnter _ => inferInstanceAs (Decidable (_ ∧ _))
  | .tcpV4ConnectExit _ => inferInstanceAs (Decidable (_ ∧ _))

/-- The events owed for a firing: one for a successful return of `tcp_v4_connect`
whose enter was stored, about the destination of the socket that was passed, by
its latest name if it has one. -/
def owed (past : List Firing) : Firing → List Event
  | .tcpV4ConnectExit f =>
    if f.ret = 0#32 then
      match stored (openConnect targetPid (getTid targetPid f.pidTgid) past) with
      | none => []
      | some sk =>
        match hostnameOf targetPid (f.skcDaddr sk) past with
        | none => [ipEvent (f.skcDaddr sk)]
        | some call => [hostEvent call.name]
    else []
  | _ => []

/-- The maps hold the open calls of the threads and the latest names of the addresses. -/
structure Attributed (past : List Firing) (s : Maps) : Prop where
  lookups : ∀ tid, s.lookups.lookup tid = (stored (openGetaddrinfo targetPid tid past)).map Call.entry
  sockets : ∀ tid, s.sockets.lookup tid = stored (openConnect targetPid tid past)
  hostnames : ∀ ip, s.hostnames.lookup ip = (hostnameOf targetPid ip past).map Call.entry

variable {targetPid}

theorem lookupOf_eq_stored (h : Allowed (Alternates targetPid) past) (tid : BitVec 32) :
    lookupOf targetPid tid past = stored (openGetaddrinfo targetPid tid past) := by
  refine remembered_eq_stored (h.mono fun past f hf hput => ?_)
  cases f with
  | getaddrinfoEnter f =>
    have hown : getTid targetPid f.pidTgid = tid ∧ tid ≠ 0#32 := by
      by_contra hc
      exact hput (if_neg hc)
    rw [← hown.1]
    exact hf.2
  | getaddrinfoExit f => exact absurd rfl hput
  | tcpV4ConnectEnter f => exact absurd rfl hput
  | tcpV4ConnectExit f => exact absurd rfl hput

theorem socketOf_eq_stored (h : Allowed (Alternates targetPid) past) (tid : BitVec 32) :
    socketOf targetPid tid past = stored (openConnect targetPid tid past) := by
  refine remembered_eq_stored (h.mono fun past f hf hput => ?_)
  cases f with
  | tcpV4ConnectEnter f =>
    have hown : getTid targetPid f.pidTgid = tid ∧ tid ≠ 0#32 := by
      by_contra hc
      exact hput (if_neg hc)
    rw [← hown.1]
    exact hf.2
  | getaddrinfoEnter f => exact absurd rfl hput
  | getaddrinfoExit f => exact absurd rfl hput
  | tcpV4ConnectExit f => exact absurd rfl hput

theorem attributed_after (h : Allowed (Alternates targetPid) past) :
    Attributed targetPid past (after targetPid past) where
  lookups tid := by rw [(tracks_after targetPid past).lookups, lookupOf_eq_stored h]
  sockets tid := by rw [(tracks_after targetPid past).sockets, socketOf_eq_stored h]
  hostnames ip := (tracks_after targetPid past).hostnames ip

theorem fire_events (h : Attributed targetPid past s) (h0 : getTid targetPid f.pidTgid ≠ 0#32) :
    (fire targetPid s f).2 = owed targetPid past f := by
  cases f with
  | tcpV4ConnectExit f =>
    have h0 : getTid targetPid f.pidTgid ≠ 0#32 := h0
    refine (tcpV4ConnectExit_events f h0).trans ?_
    rw [h.sockets, owed]
    split_ifs
    · cases stored (openConnect targetPid (getTid targetPid f.pidTgid) past) with
      | none => rfl
      | some sk =>
        simp only [h.hostnames]
        cases hostnameOf targetPid (f.skcDaddr sk) past with
        | none => exact congrArg (fun e => [e]) (report_none (f.skcDaddr sk))
        | some call => exact congrArg (fun e => [e]) (report_entry (f.skcDaddr sk) call)
    · rfl
  | getaddrinfoEnter f => rfl
  | getaddrinfoExit f => rfl
  | tcpV4ConnectEnter f => rfl

/-- Connections are attributed correctly under every interleaving: at every moment
an entry of a thread is the call it is inside of, and every firing emits exactly
the events owed for it. -/
theorem attribution (targetPid : BitVec 32) (fs : List Firing) (h : Allowed (Alternates targetPid) fs) :
    (∀ past rest, fs = past ++ rest → Attributed targetPid past (after targetPid past)) ∧
      ∀ past f rest, fs = past ++ f :: rest →
        (fire targetPid (after targetPid past) f).2 = owed targetPid past f := by
  constructor
  · rintro past rest rfl
    exact attributed_after h.left
  · rintro past f rest rfl
    exact fire_events (attributed_after h.left) h.at.1

/-- Thread 3 connects while thread 2 looks up a name for the same address. -/
def interleaved : List Firing :=
  [.tcpV4ConnectEnter ⟨3, 0x80#64, true⟩,
    .getaddrinfoEnter ⟨2, resolved [97, 98] 2 0x0100007f, 0x100#64, 0x1000#64, true⟩,
    .getaddrinfoExit ⟨2, resolved [97, 98] 2 0x0100007f, 0#32, true⟩,
    .tcpV4ConnectEnter ⟨2, 0x90#64, true⟩,
    .tcpV4ConnectExit ⟨3, 0#32, fun _ => 0x0100007f⟩]

/-- The name goes to the connection that returns first. -/
theorem attribution_interleaved :
    (fire 0#32 (after 0#32 (interleaved.take 4)) (.tcpV4ConnectExit ⟨3, 0#32, fun _ => 0x0100007f⟩)).2 =
        [hostEvent [97, 98]] ∧
      (fire 0#32 (after 0#32 interleaved) (.tcpV4ConnectExit ⟨2, 0#32, fun _ => 0x0100007f⟩)).2 =
        [ipEvent 0x0100007f] := by
  have hall := attribution 0#32 (interleaved ++ [.tcpV4ConnectExit ⟨2, 0#32, fun _ => 0x0100007f⟩]) (by decide)
  exact ⟨(hall.2 (interleaved.take 4) _ [.tcpV4ConnectExit ⟨2, 0#32, fun _ => 0x0100007f⟩] rfl).trans (by decide),
    (hall.2 interleaved _ [] rfl).trans (by decide)⟩

end LibbpfBootstrap.Tracecon
