import LibbpfBootstrap.Tracecon.Attribution

/-! Where the names in `hostnames` come from. `getaddrinfo_exit` follows the first
result to its socket address and takes four bytes of it for an IPv4 address,
without a look at the family and at the outcome of its reads. The names are those
of real IPv4 answers in every run whose successful lookups have an `AF_INET`
address first and memory that can be read; an `AF_INET6` answer is enough to put
in a false one. -/

namespace LibbpfBootstrap.Tracecon

open Kernel Kernel.Runs

/-! ### The answer of a call, as the process sees it -/

abbrev afInet : ℕ := 2

abbrev afInet6 : UInt8 := 10

/-- The address of the first `struct addrinfo` of a list of results. -/
def firstResult (mem : UserMemory) (results : BitVec 64) : BitVec 64 :=
  BitVec.ofNat 64 (leNat (mem.bytesAt 8 results))

/-- The address of its socket address. -/
def firstAiAddr (mem : UserMemory) (results : BitVec 64) : BitVec 64 :=
  BitVec.ofNat 64 (leNat (mem.bytesAt 8 (firstResult mem results + 24)))

def firstFamily (mem : UserMemory) (results : BitVec 64) : ℕ :=
  leNat (mem.bytesAt 2 (firstAiAddr mem results))

/-- The first result is the `AF_INET` address `ip`. -/
def AnswersInet (mem : UserMemory) (results : BitVec 64) (ip : BitVec 32) : Prop :=
  firstFamily mem results = afInet ∧
    BitVec.ofNat 32 (leNat (mem.bytesAt 4 (firstAiAddr mem results + 4))) = ip

instance (mem : UserMemory) (results : BitVec 64) (ip : BitVec 32) : Decidable (AnswersInet mem results ip) :=
  inferInstanceAs (Decidable (_ ∧ _))

/-- None of the three reads of the chain faults. -/
def answerReadable (mem : UserMemory) (results : BitVec 64) : Bool :=
  mem.readable 8 results && mem.readable 8 (firstResult mem results + 24) &&
    mem.readable 4 (firstAiAddr mem results + 4)

theorem ipv4Addr_of_readable {mem : UserMemory} {results : BitVec 64}
    (h : answerReadable mem results = true) :
    ipv4Addr mem results = BitVec.ofNat 32 (leNat (mem.bytesAt 4 (firstAiAddr mem results + 4))) := by
  simp only [answerReadable, Bool.and_eq_true] at h
  obtain ⟨⟨h1, h2⟩, h3⟩ := h
  have hr : BitVec.ofNat 64 (leNat (mem.probeReadUser 8 results)) = firstResult mem results := by
    rw [UserMemory.probeReadUser_of_readable h1, firstResult]
  have ha : BitVec.ofNat 64 (leNat (mem.probeReadUser 8 (firstResult mem results + 24))) =
      firstAiAddr mem results := by
    rw [UserMemory.probeReadUser_of_readable h2, firstAiAddr]
  simp only [ipv4Addr, hr, ha, UserMemory.probeReadUser_of_readable h3]

variable (targetPid : BitVec 32)

/-- Some call of `getaddrinfo` for the name of `lookup` has returned zero, its
first result was an `AF_INET` address, and that address is `ip`. The name is the
string that was passed, as far as a buffer of 84 bytes holds it. -/
def RealAnswer (past : List Firing) (ip : BitVec 32) (lookup : Lookup) : Prop :=
  ∃ before e mid x rest, past = before ++ .getaddrinfoEnter e :: mid ++ .getaddrinfoExit x :: rest ∧
    getTid targetPid e.pidTgid = getTid targetPid x.pidTgid ∧
    (∀ g ∈ mid, getaddrinfoEnterOf targetPid (getTid targetPid x.pidTgid) g = none ∧
      getaddrinfoExitOf targetPid (getTid targetPid x.pidTgid) g = false) ∧
    x.ret = 0#32 ∧ lookup.c.cstr = e.mem.strAt 83 e.hostname ∧ AnswersInet x.mem e.res ip

/-- A monitored call passes a name that can be read, and when it returns zero its
first result is an `AF_INET` address that can be read. -/
def PlainAnswer (past : List Firing) : Firing → Prop
  | .getaddrinfoEnter f => getTid targetPid f.pidTgid ≠ 0#32 → f.mem.strReadable 84 f.hostname = true
  | .getaddrinfoExit f => f.ret = 0#32 →
    ∀ lookup ∈ (after targetPid past).lookups.lookup (getTid targetPid f.pidTgid),
      answerReadable f.mem lookup.results = true ∧ firstFamily f.mem lookup.results = afInet
  | _ => True

instance (past : List Firing) : ∀ f, Decidable (PlainAnswer targetPid past f)
  | .getaddrinfoEnter _ => inferInstanceAs (Decidable (_ → _))
  | .getaddrinfoExit _ => inferInstanceAs (Decidable (_ → ∀ _ ∈ _, _))
  | .tcpV4ConnectEnter _ => isTrue trivial
  | .tcpV4ConnectExit _ => isTrue trivial

variable {targetPid} {past : List Firing}

/-- A name held for an address was answered by some return, for the call that was
open then. -/
theorem hostnameOf_answered {ip : BitVec 32} {call : Call} (h : hostnameOf targetPid ip past = some call) :
    ∃ before x rest, past = before ++ .getaddrinfoExit x :: rest ∧ x.ret = 0#32 ∧
      lookupOf targetPid (getTid targetPid x.pidTgid) before = some call ∧ firstIpv4 x.mem call.res = ip := by
  obtain ⟨notes, n, more, admitted, hnotes, -, hput, -⟩ := remembered_split h
  obtain ⟨before, f, rest, rfl, hf⟩ := mem_foretold (o := n) (by rw [hnotes]; simp)
  cases n with
  | asked ip' => simp [answeredOf] at hput
  | answered ip' call' admitted' =>
    simp only [answeredOf] at hput
    split_ifs at hput with hip
    obtain ⟨rfl, rfl⟩ := Prod.mk.inj (Option.some.inj hput)
    subst hip
    cases f with
    | getaddrinfoEnter f => simp [note] at hf
    | tcpV4ConnectEnter f => simp [note] at hf
    | tcpV4ConnectExit f =>
      simp only [note] at hf
      split_ifs at hf
      · split at hf <;> simp at hf
      · simp at hf
    | getaddrinfoExit x =>
      simp only [note] at hf
      split_ifs at hf with hr
      · split at hf
        · simp at hf
        · next call hl =>
          obtain ⟨rfl, rfl, -⟩ := Note.answered.inj (List.mem_singleton.mp hf)
          exact ⟨before, x, rest, rfl, hr, hl, rfl⟩
      · simp at hf

/-- The open call of a thread was made by its latest enter. -/
theorem lookupOf_entered {tid : BitVec 32} {call : Call} (h : lookupOf targetPid tid past = some call) :
    ∃ before e mid, past = before ++ .getaddrinfoEnter e :: mid ∧ getTid targetPid e.pidTgid = tid ∧
      tid ≠ 0#32 ∧ call = e.call ∧
      ∀ g ∈ mid, getaddrinfoEnterOf targetPid tid g = none ∧ getaddrinfoExitOf targetPid tid g = false := by
  obtain ⟨before, f, mid, admitted, rfl, -, hput, hmid⟩ := remembered_split h
  cases f with
  | getaddrinfoEnter e =>
    simp only [getaddrinfoEnterOf] at hput
    split_ifs at hput with hown
    obtain ⟨rfl, -⟩ := Prod.mk.inj (Option.some.inj hput)
    exact ⟨before, e, mid, rfl, hown.1, hown.2, rfl, hmid⟩
  | getaddrinfoExit f => simp [getaddrinfoEnterOf] at hput
  | tcpV4ConnectEnter f => simp [getaddrinfoEnterOf] at hput
  | tcpV4ConnectExit f => simp [getaddrinfoEnterOf] at hput

theorem realAnswer_of_plain (h : Allowed (PlainAnswer targetPid) past) {ip : BitVec 32} {lookup : Lookup}
    (hl : (after targetPid past).hostnames.lookup ip = some lookup) :
    RealAnswer targetPid past ip lookup := by
  rw [(tracks_after targetPid past).hostnames] at hl
  obtain ⟨call, hcall, rfl⟩ := Option.map_eq_some_iff.mp hl
  obtain ⟨before, x, rest, rfl, hret, hopen, hip⟩ := hostnameOf_answered hcall
  have hx : PlainAnswer targetPid before (.getaddrinfoExit x) := h.at
  obtain ⟨hread, hfam⟩ := hx hret call.entry (by rw [(tracks_after targetPid before).lookups, hopen]; rfl)
  obtain ⟨first, e, mid, rfl, htid, h0, rfl, hmid⟩ := lookupOf_entered hopen
  have he : PlainAnswer targetPid first (.getaddrinfoEnter e) := h.left.at
  refine ⟨first, e, mid, x, rest, rfl, htid, hmid, hret, ?_, hfam, ?_⟩
  · rw [← lookup_eq_entry]
    exact UserMemory.cstr_probeReadUserStr (he (by rw [htid]; exact h0))
  · rw [← hip, ← ipv4Addr_eq_firstIpv4]
    exact (ipv4Addr_of_readable hread).symm

/-- In every run of plain answers, every name held for an address comes from a real
IPv4 answer, and so does every name that is reported for a connection. -/
theorem realAnswers (targetPid : BitVec 32) (fs : List Firing) (h : Allowed (PlainAnswer targetPid) fs) :
    (∀ past rest, fs = past ++ rest → ∀ ip lookup,
      (after targetPid past).hostnames.lookup ip = some lookup → RealAnswer targetPid past ip lookup) ∧
    ∀ past f rest, fs = past ++ f :: rest → ∀ e ∈ (fire targetPid (after targetPid past) f).2,
      e.tag = .hostname → ∃ x sk lookup, f = .tcpV4ConnectExit x ∧
        (after targetPid past).sockets.lookup (getTid targetPid x.pidTgid) = some sk ∧
        RealAnswer targetPid past (x.skcDaddr sk) lookup ∧ e.hostname = lookup.c := by
  constructor
  · rintro past rest rfl ip lookup hl
    exact realAnswer_of_plain h.left hl
  · rintro past f rest rfl e he htag
    obtain ⟨x, sk, lookup, rfl, hsk, hn, hc⟩ := fire_hostname_event he htag
    exact ⟨x, sk, lookup, rfl, hsk, realAnswer_of_plain h.left hn, hc⟩

/-- After the lookup of a name for `127.0.0.1` that name is held, and it is a real answer. -/
theorem realAnswers_interleaved :
    ∃ lookup, (after 0#32 (interleaved.take 3)).hostnames.lookup 0x0100007f#32 = some lookup ∧
      RealAnswer 0#32 (interleaved.take 3) 0x0100007f#32 lookup := by
  have hsome : ((after 0#32 (interleaved.take 3)).hostnames.lookup 0x0100007f#32).isSome = true := by decide
  obtain ⟨lookup, hl⟩ := Option.isSome_iff_exists.mp hsome
  exact ⟨lookup, hl, (realAnswers 0#32 interleaved (by decide)).1 _ (interleaved.drop 3) rfl _ lookup hl⟩

/-- A lookup whose first result is an `AF_INET6` address without a flow label. -/
def inet6Enter : GetaddrinfoEnter := ⟨2, resolved [97, 98] afInet6 0#32, 0x100#64, 0x1000#64, true⟩

def inet6Exit : GetaddrinfoExit := ⟨2, resolved [97, 98] afInet6 0#32, 0#32, true⟩

/-- It leaves a name for the address `0.0.0.0`, which no call has answered. -/
theorem realAnswers_fail_inet6 :
    (after 0#32 [.getaddrinfoEnter inet6Enter, .getaddrinfoExit inet6Exit]).hostnames.lookup 0#32 =
        some inet6Enter.lookup ∧
      ¬ RealAnswer 0#32 [.getaddrinfoEnter inet6Enter, .getaddrinfoExit inet6Exit] 0#32 inet6Enter.lookup := by
  refine ⟨by decide, ?_⟩
  rintro ⟨before, e, mid, x, rest, hsplit, -, -, -, -, hfam, -⟩
  have he : Firing.getaddrinfoEnter e ∈ [.getaddrinfoEnter inet6Enter, .getaddrinfoExit inet6Exit] := by
    rw [hsplit]
    simp
  have hx : Firing.getaddrinfoExit x ∈ [.getaddrinfoEnter inet6Enter, .getaddrinfoExit inet6Exit] := by
    rw [hsplit]
    simp
  obtain rfl : e = inet6Enter := by simpa using he
  obtain rfl : x = inet6Exit := by simpa using hx
  exact absurd hfam (by decide)

end LibbpfBootstrap.Tracecon
