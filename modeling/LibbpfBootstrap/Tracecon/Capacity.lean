import LibbpfBootstrap.Tracecon.Answers

/-! How long tracecon keeps recognising names. The three maps are plain hash maps of
10240 entries, and an entry of `hostnames` goes only when a connection asks for
it. A lookup of a name that fits its buffer, with an `AF_INET` answer and followed
at once by a connection to it, is reported under that name exactly when the maps
have room for it, and names that no connection asks for fill `hostnames` for good. -/

namespace LibbpfBootstrap.Tracecon

open Kernel Kernel.Runs

/-- `max_entries` of the three maps. -/
abbrev maxEntries : ℕ := 10240

/-- An absent key is admitted exactly when the map is not full. -/
def Admits (targetPid : BitVec 32) (past : List Firing) : Firing → Prop
  | .getaddrinfoEnter f => f.admitted = (after targetPid past).lookups.hasRoom maxEntries
  | .getaddrinfoExit f => f.admitted = (after targetPid past).hostnames.hasRoom maxEntries
  | .tcpV4ConnectEnter f => f.admitted = (after targetPid past).sockets.hasRoom maxEntries
  | .tcpV4ConnectExit _ => True

/-- A thread looks up a name, gets an answer and connects, with nothing in between. -/
structure Visit where
  pidTgid : BitVec 64
  enterMem : UserMemory
  exitMem : UserMemory
  hostname : BitVec 64
  res : BitVec 64
  sk : BitVec 64
  skcDaddr : BitVec 64 → BitVec 32
  admitLookup : Bool
  admitHostname : Bool
  admitSocket : Bool

namespace Visit

variable (v : Visit)

def enter : GetaddrinfoEnter := ⟨v.pidTgid, v.enterMem, v.hostname, v.res, v.admitLookup⟩

def exit : GetaddrinfoExit := ⟨v.pidTgid, v.exitMem, 0#32, v.admitHostname⟩

def connect : TcpV4ConnectEnter := ⟨v.pidTgid, v.sk, v.admitSocket⟩

def connected : TcpV4ConnectExit := ⟨v.pidTgid, 0#32, v.skcDaddr⟩

def firings : List Firing :=
  [.getaddrinfoEnter v.enter, .getaddrinfoExit v.exit, .tcpV4ConnectEnter v.connect,
    .tcpV4ConnectExit v.connected]

/-- The thread passes `name`, which can be read and leaves room for its NUL in the
buffer, is answered with the `AF_INET` address `d`, and connects to `d`. -/
structure Asks (name : List UInt8) (d : BitVec 32) : Prop where
  readable : v.enterMem.strReadable 84 v.hostname = true
  passed : v.enterMem.strAt 84 v.hostname = name
  short : name.length ≤ 83
  answerReadable : answerReadable v.exitMem v.res = true
  answers : AnswersInet v.exitMem v.res d
  connects : v.skcDaddr v.sk = d

end Visit

/-- There is room for a key. -/
def Fits {V : Type*} (k : BitVec 32) (m : BpfMap (BitVec 32) V) : Prop :=
  k ∈ m ∨ m.hasRoom maxEntries = true

instance {V : Type*} (k : BitVec 32) (m : BpfMap (BitVec 32) V) : Decidable (Fits k m) :=
  inferInstanceAs (Decidable (_ ∨ _))

/-- The buffer of an entry has the name and NULs behind it. -/
def Lookup.Named (lookup : Lookup) (name : List UInt8) : Prop := ∀ i, lookup.c i = name.getD i.val 0

/-- The visit finds room in all three maps, or at least in `sockets` while the name
is already there for the address. -/
def Room (s : Maps) (tid d : BitVec 32) (name : List UInt8) : Prop :=
  Fits tid s.sockets ∧
    ((Fits tid s.lookups ∧ Fits d s.hostnames) ∨ ∃ lookup ∈ s.hostnames.lookup d, lookup.Named name)

variable {targetPid : BitVec 32} {past : List Firing}

theorem lookup_of_not_fits {V : Type*} {k : BitVec 32} {m : BpfMap (BitVec 32) V} (h : ¬ Fits k m) :
    m.lookup k = none := Finmap.lookup_eq_none.mpr (fun hk => h (Or.inl hk))

theorem lookup_updateElem_hasRoom {V : Type*} (k : BitVec 32) (x : V) (m : BpfMap (BitVec 32) V) :
    (m.updateElem (m.hasRoom maxEntries) k x).lookup k = if Fits k m then some x else none := by
  rw [BpfMap.lookup_updateElem_self]
  by_cases h : Fits k m
  · rw [if_pos h, if_pos (by rwa [Bool.or_eq_true, Finmap.lookup_isSome])]
  · rw [if_neg h, if_neg (by rwa [Bool.or_eq_true, Finmap.lookup_isSome])]

/-! ### The four firings -/

section Steps

variable {v : Visit}

namespace Visit.Asks

variable {name : List UInt8} {d : BitVec 32} (h : v.Asks name d)
include h

theorem ipv4Addr_eq : ipv4Addr v.exitMem v.res = v.skcDaddr v.sk :=
  (ipv4Addr_of_readable h.answerReadable).trans (h.answers.2.trans h.connects.symm)

/-- The name is stored whole. -/
theorem named : v.enter.lookup.Named name := by
  have hcut : v.enterMem.strAt 83 v.hostname = name := by
    rw [← UserMemory.take_strAt 83 1, h.passed, List.take_of_length_le h.short]
  have hcall : v.enter.call.name = name := by
    rw [GetaddrinfoEnter.call, Visit.enter, if_pos h.readable, hcut]
  intro i
  rw [lookup_eq_entry, Call.entry, hcall]

end Visit.Asks

theorem after_enter (h0 : getTid targetPid v.pidTgid ≠ 0#32) :
    after targetPid (past ++ [.getaddrinfoEnter v.enter]) =
      { after targetPid past with
        lookups := (after targetPid past).lookups.updateElem v.admitLookup (getTid targetPid v.pidTgid)
          v.enter.lookup } := by
  rw [after_concat]
  exact if_neg h0

/-- The answer is stored when the lookup is and when there is room for it. -/
theorem hostnames_after_exit (h0 : getTid targetPid v.pidTgid ≠ 0#32)
    (hto : ipv4Addr v.exitMem v.res = v.skcDaddr v.sk)
    (ha : v.admitLookup = (after targetPid past).lookups.hasRoom maxEntries)
    (hb : v.admitHostname = (after targetPid past).hostnames.hasRoom maxEntries) :
    (after targetPid (past ++ [.getaddrinfoEnter v.enter] ++ [.getaddrinfoExit v.exit])).hostnames.lookup
        (v.skcDaddr v.sk) =
      if Fits (getTid targetPid v.pidTgid) (after targetPid past).lookups ∧
          Fits (v.skcDaddr v.sk) (after targetPid past).hostnames then some v.enter.lookup
      else (after targetPid past).hostnames.lookup (v.skcDaddr v.sk) := by
  have hx : getTid targetPid v.exit.pidTgid = getTid targetPid v.pidTgid := rfl
  have hret : v.exit.ret = 0#32 := rfl
  have hres : ipv4Addr v.exit.mem v.enter.lookup.results = v.skcDaddr v.sk := hto
  rw [after_concat, fire, getaddrinfoExit_hostnames v.exit h0, if_pos hret, after_enter h0, hx, ha]
  simp only [lookup_updateElem_hasRoom]
  by_cases hf : Fits (getTid targetPid v.pidTgid) (after targetPid past).lookups
  · simp only [hf, if_true, true_and, hres]
    rw [show v.exit.admitted = v.admitHostname from rfl, hb, lookup_updateElem_hasRoom]
    split_ifs with hd
    · rfl
    · exact (lookup_of_not_fits hd).symm
  · simp only [hf, if_false, false_and]

theorem sockets_after_exit (h0 : getTid targetPid v.pidTgid ≠ 0#32) :
    (after targetPid (past ++ [.getaddrinfoEnter v.enter] ++ [.getaddrinfoExit v.exit])).sockets =
      (after targetPid past).sockets := by
  rw [after_concat, fire, getaddrinfoExit_sockets, after_enter h0]

theorem sockets_after_connect (h0 : getTid targetPid v.pidTgid ≠ 0#32)
    (hc : v.admitSocket = (after targetPid past).sockets.hasRoom maxEntries) :
    (after targetPid (past ++ [.getaddrinfoEnter v.enter] ++ [.getaddrinfoExit v.exit] ++
      [.tcpV4ConnectEnter v.connect])).sockets.lookup (getTid targetPid v.pidTgid) =
      if Fits (getTid targetPid v.pidTgid) (after targetPid past).sockets then some v.sk else none := by
  have hx : getTid targetPid v.connect.pidTgid = getTid targetPid v.pidTgid := rfl
  rw [after_concat, fire, tcpV4ConnectEnter]
  simp only [hx, if_neg h0, sockets_after_exit h0]
  rw [show v.connect.admitted = v.admitSocket from rfl, hc, lookup_updateElem_hasRoom]
  rfl

theorem hostnames_after_connect (h0 : getTid targetPid v.pidTgid ≠ 0#32) :
    (after targetPid (past ++ [.tcpV4ConnectEnter v.connect])).hostnames = (after targetPid past).hostnames := by
  have hx : getTid targetPid v.connect.pidTgid = getTid targetPid v.pidTgid := rfl
  rw [after_concat, fire, tcpV4ConnectEnter]
  simp only [hx, if_neg h0]

/-- The event of a visit, by the maps it finds. -/
theorem visit_outputs (v : Visit) (h0 : getTid targetPid v.pidTgid ≠ 0#32)
    (hto : ipv4Addr v.exitMem v.res = v.skcDaddr v.sk) (h : Allowed (Admits targetPid) (past ++ v.firings)) :
    outputs (fire targetPid) (after targetPid past) v.firings =
      if Fits (getTid targetPid v.pidTgid) (after targetPid past).sockets then
        [report (v.skcDaddr v.sk)
          (if Fits (getTid targetPid v.pidTgid) (after targetPid past).lookups ∧
              Fits (v.skcDaddr v.sk) (after targetPid past).hostnames then some v.enter.lookup
            else (after targetPid past).hostnames.lookup (v.skcDaddr v.sk))]
      else [] := by
  obtain ⟨-, ha, hb, hc, -⟩ := (allowedFrom_append _ [] past v.firings).mp h
  have ha : v.admitLookup = (after targetPid past).lookups.hasRoom maxEntries := ha
  have hb : v.admitHostname = (after targetPid past).hostnames.hasRoom maxEntries := by
    exact hb.trans (by rw [List.nil_append, after_enter h0])
  have hc : v.admitSocket = (after targetPid past).sockets.hasRoom maxEntries := by
    exact hc.trans (by rw [List.nil_append, sockets_after_exit h0])
  have hout : outputs (fire targetPid) (after targetPid past) v.firings =
      (tcpV4ConnectExit targetPid (after targetPid (past ++ [.getaddrinfoEnter v.enter] ++
        [.getaddrinfoExit v.exit] ++ [.tcpV4ConnectEnter v.connect])) v.connected).2 := by
    simp only [Visit.firings, outputs_cons, outputs_nil, after_concat, List.append_nil]
    rfl
  have hx : getTid targetPid v.connected.pidTgid = getTid targetPid v.pidTgid := rfl
  have hret : v.connected.ret = 0#32 := rfl
  rw [hout, tcpV4ConnectExit_events v.connected h0, if_pos hret, hx, sockets_after_connect h0 hc]
  by_cases hf : Fits (getTid targetPid v.pidTgid) (after targetPid past).sockets
  · simp only [if_pos hf]
    rw [hostnames_after_connect h0]
    exact congrArg (fun name => [report (v.skcDaddr v.sk) name]) (hostnames_after_exit h0 hto ha hb)
  · simp only [if_neg hf]

end Steps

theorem report_eq_hostEvent_iff (d : BitVec 32) (lookup : Option Lookup) (name : List UInt8) :
    report d lookup = hostEvent name ↔ ∃ l ∈ lookup, l.Named name := by
  cases lookup with
  | none => simp [report, hostEvent]
  | some l => simp [report, hostEvent, Lookup.Named, funext_iff]

/-- After every run, a visit is reported under its name exactly when the maps have
room for it. -/
theorem visit_named_iff (targetPid : BitVec 32) (past : List Firing) (v : Visit) (name : List UInt8) (d : BitVec 32)
    (h0 : getTid targetPid v.pidTgid ≠ 0#32) (hv : v.Asks name d)
    (h : Allowed (Admits targetPid) (past ++ v.firings)) :
    outputs (fire targetPid) (after targetPid past) v.firings = [hostEvent name] ↔
      Room (after targetPid past) (getTid targetPid v.pidTgid) d name := by
  rw [visit_outputs v h0 hv.ipv4Addr_eq h, hv.connects, Room]
  by_cases hs : Fits (getTid targetPid v.pidTgid) (after targetPid past).sockets
  · rw [if_pos hs, List.singleton_inj, report_eq_hostEvent_iff]
    by_cases hf : Fits (getTid targetPid v.pidTgid) (after targetPid past).lookups ∧
        Fits d (after targetPid past).hostnames
    · simp [hs, hf, hv.named]
    · simp only [hs, hf, if_false, true_and, false_or]
  · simp [hs]

/-! ### Names that nobody asks for -/

/-- A thread looks up a name for the address `ip` and does not connect to it. -/
def unaskedEnter (ip : BitVec 32) : GetaddrinfoEnter := ⟨1, resolved [97] 2 ip, 0x100#64, 0x1000#64, true⟩

def unaskedExit (ip : BitVec 32) : GetaddrinfoExit := ⟨1, resolved [97] 2 ip, 0#32, true⟩

/-- Lookups for the addresses from `0` to `n - 1`. -/
def unasked : ℕ → List Firing
  | 0 => []
  | n + 1 => unasked n ++ [.getaddrinfoEnter (unaskedEnter (BitVec.ofNat 32 n))] ++
      [.getaddrinfoExit (unaskedExit (BitVec.ofNat 32 n))]

/-- Nothing but the names for the addresses below `n`. -/
structure Filled (n : ℕ) (s : Maps) : Prop where
  lookups : s.lookups = ∅
  sockets : s.sockets = ∅
  hostnames : ∀ ip, ip ∈ s.hostnames ↔ ip.toNat < n
  card : s.hostnames.keys.card = n

theorem hasRoom_empty {V : Type*} : (∅ : BpfMap (BitVec 32) V).hasRoom maxEntries = true := by
  simp [BpfMap.hasRoom]

theorem unasked_enter {s : Maps} (ip : BitVec 32) :
    (fire 0#32 s (.getaddrinfoEnter (unaskedEnter ip))).1 =
      { s with lookups := s.lookups.updateElem true 1#32 (unaskedEnter ip).lookup } := rfl

theorem unasked_exit_hostnames {s : Maps} (ip : BitVec 32) :
    (fire 0#32 (fire 0#32 s (.getaddrinfoEnter (unaskedEnter ip))).1
      (.getaddrinfoExit (unaskedExit ip))).1.hostnames = s.hostnames.insert ip (unaskedEnter ip).lookup := by
  have htid : getTid 0#32 (unaskedExit ip).pidTgid = 1#32 := rfl
  have hret : (unaskedExit ip).ret = 0#32 := rfl
  have hip : ipv4Addr (unaskedExit ip).mem (unaskedEnter ip).lookup.results = ip := ipv4Addr_resolved [97] 2 ip
  rw [unasked_enter, fire, getaddrinfoExit_hostnames _ (by rw [htid]; decide), if_pos hret, htid]
  simp only [BpfMap.lookup_updateElem_self, Bool.or_true, if_true, hip]
  exact if_pos (Or.inr rfl)

theorem unasked_exit_lookups {s : Maps} (hl : s.lookups = ∅) (ip : BitVec 32) :
    (fire 0#32 (fire 0#32 s (.getaddrinfoEnter (unaskedEnter ip))).1
      (.getaddrinfoExit (unaskedExit ip))).1.lookups = ∅ := by
  have htid : getTid 0#32 (unaskedExit ip).pidTgid = 1#32 := rfl
  rw [unasked_enter, fire, getaddrinfoExit_lookups _ (by rw [htid]; decide), htid]
  refine Finmap.ext_lookup fun k => ?_
  by_cases hk : k = 1#32
  · rw [hk, Finmap.lookup_erase]
    rfl
  · simp only [Finmap.lookup_erase_ne hk, BpfMap.lookup_updateElem_ne hk, hl]

theorem filled_unasked (n : ℕ) (hn : n ≤ maxEntries) : Filled n (after 0#32 (unasked n)) := by
  induction n with
  | zero =>
    rw [unasked]
    exact ⟨rfl, rfl, fun ip => iff_of_false Finmap.notMem_empty (Nat.not_lt_zero _), rfl⟩
  | succ n ih =>
    have hle : n < 2 ^ 32 := lt_of_lt_of_le hn (by decide)
    obtain ⟨hl, hs, hh, hc⟩ := ih (by omega)
    rw [unasked, after_concat, after_concat]
    have hnames := unasked_exit_hostnames (s := after 0#32 (unasked n)) (BitVec.ofNat 32 n)
    refine ⟨unasked_exit_lookups hl _, ?_, fun ip => ?_, ?_⟩
    · rw [unasked_enter, fire, getaddrinfoExit_sockets]
      exact hs
    · rw [hnames, Finmap.mem_insert, hh, ← BitVec.toNat_inj, BitVec.toNat_ofNat, Nat.mod_eq_of_lt hle]
      omega
    · have hnew : BitVec.ofNat 32 n ∉ (after 0#32 (unasked n)).hostnames.keys := by
        rw [Finmap.mem_keys, hh, BitVec.toNat_ofNat, Nat.mod_eq_of_lt hle]
        omega
      rw [hnames, BpfMap.keys_insert, Finset.card_insert_of_notMem hnew, hc]

/-- The kernel admits each of these lookups. -/
theorem admits_unasked (n : ℕ) (hn : n ≤ maxEntries) : Allowed (Admits 0#32) (unasked n) := by
  induction n with
  | zero =>
    rw [unasked]
    trivial
  | succ n ih =>
    obtain ⟨hl, hs, hh, hc⟩ := filled_unasked n (by omega)
    rw [unasked, allowed_concat, allowed_concat]
    refine ⟨⟨ih (by omega), ?_⟩, ?_⟩
    · rw [Admits, hl, hasRoom_empty]
      rfl
    · rw [Admits, after_concat, unasked_enter]
      simp only [BpfMap.hasRoom, hc]
      exact (decide_eq_true (by omega : n < maxEntries)).symm

-- the runs below are too long to be unfolded
attribute [irreducible] unasked

/-- A visit to an address whose name is new to `hostnames`. -/
def newcomer (room : Bool) : Visit :=
  ⟨2, resolved [98] 2 0x0100007f#32, resolved [98] 2 0x0100007f#32, 0x100#64, 0x1000#64, 0x80#64,
    fun _ => 0x0100007f#32, true, room, true⟩

theorem newcomer_asks (room : Bool) : (newcomer room).Asks [98] 0x0100007f#32 where
  readable := UserMemory.strReadable_of_no_faults (fun _ => rfl) _ _
  passed := by
    show (resolved [98] 2 0x0100007f#32).strAt 84 0x100#64 = [98]
    decide
  short := by decide
  answerReadable := rfl
  answers := by
    show AnswersInet (resolved [98] 2 0x0100007f#32) 0x1000#64 0x0100007f#32
    decide
  connects := rfl

theorem newcomer_admits {past : List Firing} {n : ℕ} {room : Bool} (hf : Filled n (after 0#32 past))
    (ha : Allowed (Admits 0#32) past) (hroom : room = decide (n < maxEntries)) :
    Allowed (Admits 0#32) (past ++ (newcomer room).firings) := by
  have h0 : getTid 0#32 (newcomer room).pidTgid ≠ 0#32 := by
    show getTid 0#32 2#64 ≠ 0#32
    decide
  refine (allowedFrom_append _ [] past _).mpr ⟨ha, ?_, ?_, ?_, trivial, trivial⟩
  · rw [List.nil_append, Admits, hf.lookups, hasRoom_empty]
    rfl
  · rw [List.nil_append, Admits, after_enter h0]
    simp only [BpfMap.hasRoom, hf.card]
    exact hroom
  · rw [List.nil_append, Admits, sockets_after_exit h0, hf.sockets, hasRoom_empty]
    rfl

/-- With half of `hostnames` taken the newcomer is named. -/
theorem visit_named_newcomer :
    outputs (fire 0#32) (after 0#32 (unasked 5120)) (newcomer true).firings = [hostEvent [98]] := by
  have hf := filled_unasked 5120 (by decide)
  have hroom : Room (after 0#32 (unasked 5120)) 2#32 0x0100007f#32 [98] := by
    refine ⟨Or.inr ?_, Or.inl ⟨Or.inr ?_, Or.inr ?_⟩⟩
    · rw [hf.sockets, hasRoom_empty]
    · rw [hf.lookups, hasRoom_empty]
    · rw [BpfMap.hasRoom, hf.card]
      decide
  exact (visit_named_iff 0#32 (unasked 5120) (newcomer true) [98] 0x0100007f#32 (by decide) (newcomer_asks true)
    (newcomer_admits hf (admits_unasked 5120 (by decide)) (by decide))).mpr hroom

/-- After 10240 lookups that no connection asked for the newcomer is reported by its
address. -/
theorem visit_unnamed_newcomer :
    Allowed (Admits 0#32) (unasked 10240 ++ (newcomer false).firings) ∧
      (newcomer false).Asks [98] 0x0100007f#32 ∧
      outputs (fire 0#32) (after 0#32 (unasked 10240)) (newcomer false).firings = [ipEvent 0x0100007f#32] := by
  have hf := filled_unasked 10240 (by decide)
  have ha : Allowed (Admits 0#32) (unasked 10240 ++ (newcomer false).firings) :=
    newcomer_admits hf (admits_unasked 10240 (by decide)) (by decide)
  refine ⟨ha, newcomer_asks false, ?_⟩
  have hnew : 0x0100007f#32 ∉ (after 0#32 (unasked 10240)).hostnames := by
    rw [hf.hostnames]
    decide
  have hfull : ¬ Fits 0x0100007f#32 (after 0#32 (unasked 10240)).hostnames := by
    rintro (h | h)
    · exact hnew h
    · rw [BpfMap.hasRoom, hf.card] at h
      exact absurd h (by decide)
  have hsocket : Fits (getTid 0#32 (newcomer false).pidTgid) (after 0#32 (unasked 10240)).sockets := by
    refine Or.inr ?_
    rw [hf.sockets, hasRoom_empty]
  have h0 : getTid 0#32 (newcomer false).pidTgid ≠ 0#32 := by decide
  rw [visit_outputs (newcomer false) h0 (newcomer_asks false).ipv4Addr_eq ha, if_pos hsocket,
    (newcomer_asks false).connects, if_neg (fun h => hfull h.2), Finmap.lookup_eq_none.mpr hnew, report_none]

end LibbpfBootstrap.Tracecon
